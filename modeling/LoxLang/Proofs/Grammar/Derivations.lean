import LoxLang.Proofs.Grammar.Words

/-!
What the derivations of the grammar have in common: what stands before an equals sign, with which words the
parts of a program begin, and that no word is an operator of two tiers.
-/

namespace LoxLang

namespace Grammar

/-! ### Operators -/

/-- An operator makes a node of its operands. -/
inductive Join.Node : Join → Prop
  | binary (op : BinaryOp) : Node (binaryJoin op)
  | logical (op : LogicalOp) : Node (logicalJoin op)

theorem tiers_node : ∀ tier ∈ tiers, ∀ j ∈ tier, Join.Node j.2 := by
  simp only [tiers, List.forall_mem_cons, List.not_mem_nil, false_implies, implies_true, and_true]
  repeat' apply And.intro
  all_goals first | exact .binary _ | exact .logical _

/-- No word is an operator of two tiers. -/
theorem tiers_apart : tiers.Pairwise fun a b => ∀ i ∈ a, ∀ j ∈ b, i.1 ≠ j.1 := by
  decide

/-- No operator is a punctuation mark. -/
theorem tiers_ne : ∀ tier ∈ tiers, ∀ j ∈ tier,
    j.1 ∉ [.leftParen, .dot, .equal, .rightParen, .comma, .semicolon] := by
  decide

/-! ### Assignment targets -/

/-- What may stand before an equals sign. -/
def Target : Expr → Prop
  | .read _ => True
  | .get _ _ => True
  | _ => False

theorem Unary.call_of_target {ts : List Token} {e : Expr} (h : Unary ts e) (he : Target e) : Call ts e := by
  cases h with
  | apply _ _ => exact he.elim
  | call hcall => exact hcall

/-- No operator makes a target. -/
theorem Chain.call_of_target : ∀ {T : List Tier} {ts : List Token} {e : Expr}, Chain T ts e →
    T <:+ tiers → Target e → Call ts e
  | _, _, _, .operand hunary => fun _ he => hunary.call_of_target he
  | _, _, _, .single hchain => fun hT he => hchain.call_of_target ((List.suffix_cons _ _).trans hT) he
  | _, _, _, .join (f := f) _ hf _ => fun hT he => by
    have hnode := tiers_node _ (hT.subset List.mem_cons_self) _ hf
    cases hnode <;> exact he.elim
termination_by structural _ _ _ h => h

theorem Chain.of_read {ts : List Token} {r : Reference} (h : Chain tiers ts (.read r)) :
    ∃ t : Token, ts = [t] ∧ t.kind = .identifier ∧ r.ident = ident t := by
  cases h.call_of_target List.suffix_rfl trivial with
  | primary hprimary =>
    cases hprimary with
    | name id hkind => exact ⟨_, rfl, hkind, rfl⟩

theorem Chain.of_get {ts : List Token} {o : Expr} {x : Ident} (h : Chain tiers ts (.get o x)) :
    ∃ (object : List Token) (dot name : Token), ts = object ++ [dot, name] ∧ Call object o ∧
      dot.kind = .dot ∧ name.kind = .identifier ∧ x = ident name := by
  cases h.call_of_target List.suffix_rfl trivial with
  | primary hprimary => cases hprimary
  | get hobject hdot hname => exact ⟨_, _, _, rfl, hobject, hdot, hname, rfl⟩

/-! ### First words -/

/-- There is a first token, and it is of some kinds. -/
def Begins (words : TokenKind → Prop) (ts : List Token) : Prop :=
  ∃ t us, ts = t :: us ∧ words t.kind

section Begins

variable {words words' : TokenKind → Prop} {ts us : List Token} {t : Token}

theorem Begins.append (h : Begins words ts) (us : List Token) : Begins words (ts ++ us) := by
  obtain ⟨t, vs, rfl, ht⟩ := h
  exact ⟨t, vs ++ us, rfl, ht⟩

theorem Begins.imp (h : Begins words ts) (himp : ∀ kind, words kind → words' kind) : Begins words' ts := by
  obtain ⟨t, vs, rfl, ht⟩ := h
  exact ⟨t, vs, rfl, himp _ ht⟩

theorem begins_cons : Begins words (t :: ts) ↔ words t.kind := by
  constructor
  · rintro ⟨u, us, hcons, hu⟩
    cases hcons
    exact hu
  · exact fun h => ⟨t, ts, rfl, h⟩

theorem Begins.length_pos (h : Begins words ts) : 0 < ts.length := by
  obtain ⟨t, vs, rfl, _⟩ := h
  exact Nat.succ_pos _

end Begins

open LoxLang.Parser (Lead StatementLead DeclarationLead)

section Words

variable {kind : TokenKind}

theorem operandWord_of (lead : Lead) (h : lead.Word kind) : Parser.operandWord kind := by
  rw [Parser.operandWord, (Parser.lead?_iff lead).mpr h]
  rfl

theorem statementWord_of (lead : StatementLead) (h : kind = lead.word) : Parser.statementWord kind := by
  rw [Parser.statementWord, (Parser.statementLead?_iff lead).mpr h]
  exact Bool.or_true _

theorem declarationWord_of (lead : DeclarationLead) (h : kind = lead.word) :
    Parser.declarationWord kind := by
  rw [Parser.declarationWord, (Parser.declarationLead?_iff lead).mpr h]
  exact Bool.or_true _

end Words

theorem Primary.begins {ts : List Token} {e : Expr} (h : Primary ts e) : Begins (Parser.operandWord ·) ts := by
  cases h with
  | constant h => exact begins_cons.mpr (operandWord_of (.constant _) h)
  | literal h => exact begins_cons.mpr (operandWord_of .literal h)
  | this _ h => exact begins_cons.mpr (operandWord_of .this h)
  | name _ h => exact begins_cons.mpr (operandWord_of .name h)
  | grouping h _ _ => exact begins_cons.mpr (operandWord_of .paren h)
  | super _ h _ _ => exact begins_cons.mpr (operandWord_of .super h)

theorem Call.begins : ∀ {ts : List Token} {e : Expr}, Call ts e → Begins (Parser.operandWord ·) ts
  | _, _, .primary h => h.begins
  | _, _, .call h _ _ _ _ => h.begins.append _
  | _, _, .get h _ _ => h.begins.append _
termination_by structural _ _ h => h

theorem Unary.begins {ts : List Token} {e : Expr} (h : Unary ts e) :
    Begins (Parser.expressionWord ·) ts := by
  cases h with
  | apply h _ =>
    apply begins_cons.mpr
    rw [Parser.expressionWord, Parser.unaryOp?_iff.mpr h]
    exact Bool.or_true _
  | call h => exact h.begins.imp fun _ => Parser.expressionWord_of_operand

theorem Chain.begins : ∀ {T : List Tier} {ts : List Token} {e : Expr}, Chain T ts e →
    Begins (Parser.expressionWord ·) ts
  | _, _, _, .operand h => h.begins
  | _, _, _, .single h => h.begins
  | _, _, _, .join (f := f) h _ _ => h.begins.append _
termination_by structural _ _ _ h => h

theorem Expression.begins {ts : List Token} {e : Expr} (h : Expression ts e) :
    Begins (Parser.expressionWord ·) ts := by
  cases h with
  | value h => exact h.begins
  | assign _ hname _ _ =>
    apply begins_cons.mpr
    rw [hname]
    rfl
  | set h _ _ _ _ => exact (h.begins.imp fun _ => Parser.expressionWord_of_operand).append _

/-! ### Statements -/

/-- What stands behind a statement is not an `else` that would belong to it. -/
def Settled (flag : Bool) (rest : List Token) : Prop :=
  flag = true → ∀ t ts, rest = t :: ts → t.kind ≠ .kwElse

theorem Statement.begins {flag : Bool} {ts : List Token} {stmt : Stmt} (h : Statement flag ts stmt) :
    Begins (Parser.statementWord ·) ts := by
  cases h with
  | expression h _ => exact (h.begins.imp fun _ => Parser.statementWord_of_expression).append _
  | print h _ _ => exact begins_cons.mpr (statementWord_of .print h)
  | returnValue h _ _ => exact begins_cons.mpr (statementWord_of .return h)
  | breakLoop h _ => exact begins_cons.mpr (statementWord_of .break h)
  | continueLoop h _ => exact begins_cons.mpr (statementWord_of .continue h)
  | block h _ => exact begins_cons.mpr (statementWord_of .block h)
  | ifThen h _ _ _ _ => exact begins_cons.mpr (statementWord_of .if h)
  | ifElse h _ _ _ _ _ _ => exact begins_cons.mpr (statementWord_of .if h)
  | whileLoop h _ _ _ _ => exact begins_cons.mpr (statementWord_of .while h)
  | forLoop h _ _ _ _ _ _ _ => exact begins_cons.mpr (statementWord_of .for h)

theorem Declaration.begins {ts : List Token} {stmt : Stmt} (h : Declaration ts stmt) :
    Begins (Parser.declarationWord ·) ts := by
  cases h with
  | statement h => exact h.begins.imp fun _ => Parser.declarationWord_of_statement
  | var h =>
    cases h with
    | mk h _ _ _ => exact begins_cons.mpr (declarationWord_of .kwVar h)
  | function h _ => exact begins_cons.mpr (declarationWord_of .kwFun h)
  | classDecl h _ _ _ _ _ => exact begins_cons.mpr (declarationWord_of .kwClass h)

theorem Function.begins {ts : List Token} {d : FunctionDecl} (h : Function ts d) :
    Begins (· = .identifier) ts := by
  cases h with
  | mk _ hname _ _ _ _ _ _ => exact begins_cons.mpr hname

end Grammar

end LoxLang
