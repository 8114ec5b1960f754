import LoxLang.Proofs.Grammar.Derivations
import LoxLang.Proofs.Syntax.Move

/-!
The places in the trees of the grammar are those where their tokens begin. So two moves of a tree that spell
names in the same way are alike as soon as they are where its tokens begin; what they do elsewhere makes no
difference.
-/

namespace LoxLang

namespace Grammar

variable {v w : Move} {P : Position → Position → Prop}

/-- Where the tokens begin, the two moves lead to places that correspond, and they spell names alike. -/
structure Covered (v w : Move) (P : Position → Position → Prop) (ts : List Token) : Prop where
  spell : v.spell = w.spell
  place : ∀ t ∈ ts, P (v.place t.position) (w.place t.position)

namespace Covered

variable {t : Token} {ts us : List Token}

theorem head (h : Covered v w P (t :: ts)) : P (v.place t.position) (w.place t.position) :=
  h.place t List.mem_cons_self

theorem tail (h : Covered v w P (t :: ts)) : Covered v w P ts :=
  ⟨h.spell, fun u hu => h.place u (List.mem_cons_of_mem t hu)⟩

theorem left (h : Covered v w P (ts ++ us)) : Covered v w P ts :=
  ⟨h.spell, fun u hu => h.place u (List.mem_append_left us hu)⟩

theorem right (h : Covered v w P (ts ++ us)) : Covered v w P us :=
  ⟨h.spell, fun u hu => h.place u (List.mem_append_right ts hu)⟩

theorem ident (h : Covered v w P (t :: ts)) :
    (v.ident (Grammar.ident t)).Alike (v.across w P) (w.ident (Grammar.ident t)) :=
  ⟨congrFun (congrFun h.spell _) _, h.head⟩

theorem reference (h : Covered v w P (t :: ts)) (id : NodeId) :
    (v.reference ⟨id, Grammar.ident t⟩).Alike (v.across w P) (w.reference ⟨id, Grammar.ident t⟩) :=
  ⟨v.node_between w id, h.ident⟩

end Covered

/-! ### Expressions -/

mutual

theorem Expression.moved : ∀ {ts : List Token} {e : Expr}, Expression ts e → Covered v w P ts →
    (v.expr e).Alike (v.across w P) (w.expr e)
  | _, _, .value h, hts => h.moved List.suffix_rfl hts
  | _, _, .assign id _ _ h, hts => .assign (hts.reference id) (h.moved hts.tail.tail)
  | _, _, .set hobject _ _ _ h, hts =>
    .set (hobject.moved hts.left) hts.right.tail.ident (h.moved hts.right.tail.tail.tail)
termination_by structural _ _ h => h

theorem Chain.moved : ∀ {T : List Tier} {ts : List Token} {e : Expr}, Chain T ts e → T <:+ tiers →
    Covered v w P ts → (v.expr e).Alike (v.across w P) (w.expr e)
  | _, _, _, .operand h, _, hts => h.moved hts
  | _, _, _, .single h, hT, hts => h.moved ((List.suffix_cons _ _).trans hT) hts
  | _, _, _, .join (f := f) hleft hf hright, hT, hts => by
    have hl := hleft.moved hT hts.left
    have hr := hright.moved ((List.suffix_cons _ _).trans hT) hts.right.tail
    cases tiers_node _ (hT.subset List.mem_cons_self) _ hf with
    | binary op => exact .binary op hl hts.right.head hr
    | logical op => exact .logical op hl hr
termination_by structural _ _ _ h => h

theorem Unary.moved : ∀ {ts : List Token} {e : Expr}, Unary ts e → Covered v w P ts →
    (v.expr e).Alike (v.across w P) (w.expr e)
  | _, _, .apply _ h, hts => .unary _ hts.head (h.moved hts.tail)
  | _, _, .call h, hts => h.moved hts
termination_by structural _ _ h => h

theorem Call.moved : ∀ {ts : List Token} {e : Expr}, Call ts e → Covered v w P ts →
    (v.expr e).Alike (v.across w P) (w.expr e)
  | _, _, .primary h, hts => h.moved hts
  | _, _, .call hcallee _ harguments _ _, hts =>
    .call (hcallee.moved hts.left) hts.right.tail.right.head (harguments.moved hts.right.tail.left)
  | _, _, .get hobject _ _, hts => .get (hobject.moved hts.left) hts.right.tail.ident
termination_by structural _ _ h => h

theorem Primary.moved : ∀ {ts : List Token} {e : Expr}, Primary ts e → Covered v w P ts →
    (v.expr e).Alike (v.across w P) (w.expr e)
  | _, _, .constant _, _ => .constant _
  | _, _, .literal _, _ => .constant _
  | _, _, .this id _, hts => .this (v.node_between w id) hts.head
  | _, _, .name id _, hts => .read (hts.reference id)
  | _, _, .grouping _ h _, hts => .grouping (h.moved hts.tail.left)
  | _, _, .super id _ _ _, hts => .super (v.node_between w id) hts.head hts.tail.tail.ident
termination_by structural _ _ h => h

theorem ArgumentList.moved : ∀ {ts : List Token} {es : List Expr}, ArgumentList ts es → Covered v w P ts →
    List.Forall₂ (Expr.Alike (v.across w P)) (v.exprs es) (w.exprs es)
  | _, _, .none, _ => .nil
  | _, _, .some h, hts => h.moved hts
termination_by structural _ _ h => h

theorem Arguments.moved : ∀ {ts : List Token} {es : List Expr}, Arguments ts es → Covered v w P ts →
    List.Forall₂ (Expr.Alike (v.across w P)) (v.exprs es) (w.exprs es)
  | _, _, .last h, hts => .cons (h.moved hts) .nil
  | _, _, .more h _ hrest, hts => .cons (h.moved hts.left) (hrest.moved hts.right.tail)
termination_by structural _ _ h => h

end

/-! ### Clauses -/

section Clauses

variable {ts : List Token}

theorem Optional.moved {e : Option Expr} (h : Optional ts e) (hts : Covered v w P ts) :
    Option.Rel (Expr.Alike (v.across w P)) (e.map v.expr) (e.map w.expr) := by
  cases h with
  | none => exact .none
  | some h => exact .some (h.moved hts)

theorem Initializer.moved {e : Option Expr} (h : Initializer ts e) (hts : Covered v w P ts) :
    Option.Rel (Expr.Alike (v.across w P)) (e.map v.expr) (e.map w.expr) := by
  cases h with
  | none => exact .none
  | some _ h => exact .some (h.moved hts.tail)

theorem VarDeclaration.moved {s : Stmt} (h : VarDeclaration ts s) (hts : Covered v w P ts) :
    (v.stmt s).Alike (v.across w P) (w.stmt s) := by
  cases h with
  | mk _ _ hvalue _ => exact .var hts.tail.ident (hvalue.moved hts.tail.tail.left)

theorem ForInitializer.moved {s : Stmt} (h : ForInitializer ts (some s)) (hts : Covered v w P ts) :
    (v.stmt s).Alike (v.across w P) (w.stmt s) := by
  cases h with
  | var h => exact h.moved hts
  | expression h _ => exact .expression (h.moved hts.left)

theorem Parameters.moved {names : List Ident} (h : Parameters ts names) (hts : Covered v w P ts) :
    List.Forall₂ (Ident.Alike (v.across w P)) (names.map v.ident) (names.map w.ident) := by
  induction h with
  | last _ => exact .cons hts.ident .nil
  | more _ _ _ ih => exact .cons hts.ident (ih hts.tail.tail)

theorem ParameterList.moved {names : List Ident} (h : ParameterList ts names) (hts : Covered v w P ts) :
    List.Forall₂ (Ident.Alike (v.across w P)) (names.map v.ident) (names.map w.ident) := by
  cases h with
  | none => exact .nil
  | some h => exact h.moved hts

theorem Superclass.moved {r : Option Reference} (h : Superclass ts r) (hts : Covered v w P ts) :
    Option.Rel (Reference.Alike (v.across w P)) (r.map v.reference) (r.map w.reference) := by
  cases h with
  | none => exact .none
  | some id _ _ => exact .some (hts.tail.reference id)

/-- The loop of a `for` statement, with its clauses. -/
theorem forTree_moved {i : Option Stmt} {c k : Option Expr} {body : Stmt}
    (hi : ∀ s, i = some s → (v.stmt s).Alike (v.across w P) (w.stmt s))
    (hc : Option.Rel (Expr.Alike (v.across w P)) (c.map v.expr) (c.map w.expr))
    (hk : Option.Rel (Expr.Alike (v.across w P)) (k.map v.expr) (k.map w.expr))
    (hbody : (v.stmt body).Alike (v.across w P) (w.stmt body)) :
    (v.stmt (forTree i c k body)).Alike (v.across w P) (w.stmt (forTree i c k body)) := by
  have hcondition : (v.expr (c.getD (.constant (.bool true)))).Alike (v.across w P)
      (w.expr (c.getD (.constant (.bool true)))) := by
    cases c with
    | none => exact .constant _
    | some c => cases hc with | some hc => exact hc
  cases i with
  | none => exact .loop hcondition hbody hk
  | some s => exact .block (.cons (hi s rfl) (.cons (.loop hcondition hbody hk) .nil))

end Clauses

/-! ### Statements -/

mutual

theorem Statement.moved : ∀ {flag : Bool} {ts : List Token} {s : Stmt}, Statement flag ts s →
    Covered v w P ts → (v.stmt s).Alike (v.across w P) (w.stmt s)
  | _, _, _, .expression h _, hts => .expression (h.moved hts.left)
  | _, _, _, .print _ h _, hts => .print (h.moved hts.tail.left)
  | _, _, _, .returnValue _ h _, hts => .returnValue hts.head (h.moved hts.tail.left)
  | _, _, _, .breakLoop _ _, hts => .breakLoop hts.head
  | _, _, _, .continueLoop _ _, hts => .continueLoop hts.head
  | _, _, _, .block _ h, hts => .block (h.moved hts.tail)
  | _, _, _, .ifThen _ _ hc _ h, hts =>
    .ifThen (hc.moved hts.tail.tail.left) (h.moved hts.tail.tail.right.tail)
  | _, _, _, .ifElse _ _ hc _ h _ h', hts =>
    .ifElse (hc.moved hts.tail.tail.left) (h.moved hts.tail.tail.right.tail.left)
      (h'.moved hts.tail.tail.right.tail.right.tail)
  | _, _, _, .whileLoop _ _ hc _ h, hts =>
    .loop (hc.moved hts.tail.tail.left) (h.moved hts.tail.tail.right.tail) .none
  | _, _, _, .forLoop _ _ hi hc _ hk _ h, hts => by
    have hclauses := hts.tail.tail
    refine forTree_moved ?_ (hc.moved hclauses.right.left) (hk.moved hclauses.right.right.tail.left)
      (h.moved hclauses.right.right.tail.right.tail)
    rintro s rfl
    exact hi.moved hclauses.left
termination_by structural _ _ _ h => h

theorem Block.moved : ∀ {ts : List Token} {body : List Stmt}, Block ts body → Covered v w P ts →
    List.Forall₂ (Stmt.Alike (v.across w P)) (v.stmts body) (w.stmts body)
  | _, _, .mk h _, hts => h.moved hts.left
termination_by structural _ _ h => h

theorem Declarations.moved : ∀ {ts : List Token} {body : List Stmt}, Declarations ts body →
    Covered v w P ts → List.Forall₂ (Stmt.Alike (v.across w P)) (v.stmts body) (w.stmts body)
  | _, _, .nil, _ => .nil
  | _, _, .cons h hrest, hts => .cons (h.moved hts.left) (hrest.moved hts.right)
termination_by structural _ _ h => h

theorem Declaration.moved : ∀ {ts : List Token} {s : Stmt}, Declaration ts s → Covered v w P ts →
    (v.stmt s).Alike (v.across w P) (w.stmt s)
  | _, _, .statement h, hts => h.moved hts
  | _, _, .var h, hts => h.moved hts
  | _, _, .function _ h, hts => .function (h.moved hts.tail)
  | _, _, .classDecl _ _ hclause _ hmethods _, hts =>
    .classDecl hts.tail.ident (hclause.moved hts.tail.tail.left)
      (hmethods.moved hts.tail.tail.right.tail.left)
termination_by structural _ _ h => h

theorem Function.moved : ∀ {ts : List Token} {d : FunctionDecl}, Function ts d → Covered v w P ts →
    (v.function d).Alike (v.across w P) (w.function d)
  | _, _, .mk id _ _ hparameters _ _ _ h, hts =>
    .mk (v.node_between w id) hts.ident (hparameters.moved hts.tail.tail.left)
      (h.moved hts.tail.tail.right.tail.tail)
termination_by structural _ _ h => h

theorem Methods.moved : ∀ {ts : List Token} {ds : List FunctionDecl}, Methods ts ds → Covered v w P ts →
    List.Forall₂ (FunctionDecl.Alike (v.across w P)) (v.functions ds) (w.functions ds)
  | _, _, .nil, _ => .nil
  | _, _, .cons h hrest, hts => .cons (h.moved hts.left) (hrest.moved hts.right)
termination_by structural _ _ h => h

end

end Grammar

end LoxLang
