import LoxLang.Proofs.Grammar.Sound.Statements
import LoxLang.Proofs.Number.Order
import LoxLang.Proofs.Number.Rounding
import LoxLang.Proofs.Token.Layout

/-!
The constants of a program. Each of them is one of the words that are values by themselves, or the value of one
of the tokens, and what digits stand for is never a NaN.
-/

namespace LoxLang

open Grammar

mutual

def Expr.constants : Expr → List Constant
  | .constant value => [value]
  | .grouping inner => inner.constants
  | .unary _ _ operand => operand.constants
  | .binary left _ _ right => left.constants ++ right.constants
  | .logical left _ right => left.constants ++ right.constants
  | .read _ => []
  | .assign _ value => value.constants
  | .call callee _ arguments => callee.constants ++ Expr.allConstants arguments
  | .get object _ => object.constants
  | .set object _ value => object.constants ++ value.constants
  | .this _ _ => []
  | .super _ _ _ => []

def Expr.allConstants : List Expr → List Constant
  | [] => []
  | e :: rest => e.constants ++ Expr.allConstants rest

end

mutual

def Stmt.constants : Stmt → List Constant
  | .expression e => e.constants
  | .print e => e.constants
  | .var _ none => []
  | .var _ (some e) => e.constants
  | .block body => Stmt.allConstants body
  | .ifThen condition thenBranch => condition.constants ++ thenBranch.constants
  | .ifElse condition thenBranch elseBranch =>
    condition.constants ++ (thenBranch.constants ++ elseBranch.constants)
  | .loop condition body none => condition.constants ++ body.constants
  | .loop condition body (some increment) =>
    condition.constants ++ (increment.constants ++ body.constants)
  | .breakLoop _ => []
  | .continueLoop _ => []
  | .function declaration => declaration.constants
  | .returnValue _ none => []
  | .returnValue _ (some e) => e.constants
  | .classDecl _ _ methods => FunctionDecl.allConstants methods

def Stmt.allConstants : List Stmt → List Constant
  | [] => []
  | s :: rest => s.constants ++ Stmt.allConstants rest

def FunctionDecl.constants : FunctionDecl → List Constant
  | ⟨_, _, _, body⟩ => Stmt.allConstants body

def FunctionDecl.allConstants : List FunctionDecl → List Constant
  | [] => []
  | m :: rest => m.constants ++ FunctionDecl.allConstants rest

end

/-! ### Constants and tokens -/

/-- Each of the constants is a word of the language or the value of one of the tokens. -/
def Stated (cs : List Constant) (ts : List Token) : Prop :=
  ∀ c ∈ cs, c ∈ Grammar.constants.map Prod.snd ∨ ∃ t ∈ ts, c = Parser.constantOf t

namespace Stated

variable {cs ds : List Constant} {ts us : List Token}

theorem nil : Stated [] ts := by
  simp [Stated]

theorem word (kind : TokenKind) {c : Constant} (h : (kind, c) ∈ Grammar.constants) : Stated [c] ts := by
  intro d hd
  cases List.mem_singleton.mp hd
  exact .inl (List.mem_map.mpr ⟨_, h, rfl⟩)

theorem token (t : Token) : Stated [Parser.constantOf t] (t :: ts) := by
  simp [Stated]

/-- Further tokens make no difference. -/
theorem among (h : Stated cs ts) (hts : ts ⊆ us) : Stated cs us := by
  intro c hc
  rcases h c hc with hword | ⟨t, ht, rfl⟩
  · exact .inl hword
  · exact .inr ⟨t, hts ht, rfl⟩

theorem skip (t : Token) (h : Stated cs ts) : Stated cs (t :: ts) :=
  h.among (List.subset_cons_self t ts)

theorem before (h : Stated cs ts) (us : List Token) : Stated cs (ts ++ us) :=
  h.among (List.subset_append_left ts us)

theorem behind (ts : List Token) (h : Stated cs us) : Stated cs (ts ++ us) :=
  h.among (List.subset_append_right ts us)

theorem append (h : Stated cs ts) (h' : Stated ds us) : Stated (cs ++ ds) (ts ++ us) := by
  intro c hc
  rcases List.mem_append.mp hc with hmem | hmem
  · exact h.before us c hmem
  · exact h'.behind ts c hmem

end Stated

namespace Grammar

mutual

theorem Expression.stated : ∀ {ts : List Token} {e : Expr}, Expression ts e → Stated e.constants ts
  | _, _, .value h => h.stated List.suffix_rfl
  | _, _, .assign _ _ _ h => (h.stated.skip _).skip _
  | _, _, .set hobject _ _ _ h => hobject.stated.append (((h.stated.skip _).skip _).skip _)
termination_by structural _ _ h => h

theorem Chain.stated : ∀ {T : List Tier} {ts : List Token} {e : Expr}, Chain T ts e → T <:+ tiers →
    Stated e.constants ts
  | _, _, _, .operand h, _ => h.stated
  | _, _, _, .single h, hT => h.stated ((List.suffix_cons _ _).trans hT)
  | _, _, _, .join (f := f) hleft hf hright, hT => by
    have hl := hleft.stated hT
    have hr := (hright.stated ((List.suffix_cons _ _).trans hT)).skip
    cases tiers_node _ (hT.subset List.mem_cons_self) _ hf with
    | binary op => exact hl.append (hr _)
    | logical op => exact hl.append (hr _)
termination_by structural _ _ _ h => h

theorem Unary.stated : ∀ {ts : List Token} {e : Expr}, Unary ts e → Stated e.constants ts
  | _, _, .apply _ h => h.stated.skip _
  | _, _, .call h => h.stated
termination_by structural _ _ h => h

theorem Call.stated : ∀ {ts : List Token} {e : Expr}, Call ts e → Stated e.constants ts
  | _, _, .primary h => h.stated
  | _, _, .call hcallee _ harguments _ _ => hcallee.stated.append ((harguments.stated.before _).skip _)
  | _, _, .get hobject _ _ => hobject.stated.before _
termination_by structural _ _ h => h

theorem Primary.stated : ∀ {ts : List Token} {e : Expr}, Primary ts e → Stated e.constants ts
  | _, _, .constant h => .word _ h
  | _, _, .literal _ => .token _
  | _, _, .this _ _ => .nil
  | _, _, .name _ _ => .nil
  | _, _, .grouping _ h _ => (h.stated.before _).skip _
  | _, _, .super _ _ _ _ => .nil
termination_by structural _ _ h => h

theorem ArgumentList.stated : ∀ {ts : List Token} {es : List Expr}, ArgumentList ts es →
    Stated (Expr.allConstants es) ts
  | _, _, .none => .nil
  | _, _, .some h => h.stated
termination_by structural _ _ h => h

theorem Arguments.stated : ∀ {ts : List Token} {es : List Expr}, Arguments ts es →
    Stated (Expr.allConstants es) ts
  | _, _, .last h => by simpa [Expr.allConstants] using h.stated
  | _, _, .more h _ hrest => h.stated.append (hrest.stated.skip _)
termination_by structural _ _ h => h

end

section Clauses

variable {ts : List Token}

theorem VarDeclaration.stated {s : Stmt} (h : VarDeclaration ts s) : Stated s.constants ts := by
  cases h with
  | mk _ _ hvalue _ =>
    cases hvalue with
    | none => exact .nil
    | some _ h => exact (((h.stated.before _).skip _).skip _).skip _

theorem ForInitializer.stated {s : Stmt} (h : ForInitializer ts (some s)) : Stated s.constants ts := by
  cases h with
  | var h => exact h.stated
  | expression h _ => exact h.stated.before _

theorem loop_stated {condition increment body : List Token} {c : Expr} {k : Option Expr} {s : Stmt}
    (hc : Stated c.constants condition) (hk : Optional increment k) (hs : Stated s.constants body) :
    Stated (Stmt.loop c s k).constants (condition ++ (increment ++ body)) := by
  cases hk with
  | none => exact hc.append hs
  | some hk => exact hc.append (hk.stated.append hs)

theorem forTree_stated {initializer condition increment body : List Token} {i : Option Stmt}
    {c k : Option Expr} {s : Stmt} (hi : ForInitializer initializer i) (hc : Optional condition c)
    (hk : Optional increment k) (hs : Stated s.constants body) :
    Stated (forTree i c k s).constants (initializer ++ (condition ++ (increment ++ body))) := by
  have hcondition : Stated (c.getD (.constant (.bool true))).constants condition := by
    cases hc with
    | none => exact .word .kwTrue (by simp [Grammar.constants])
    | some h => exact h.stated
  have hloop := loop_stated hcondition hk hs
  cases i with
  | none => exact hloop.behind _
  | some i =>
    have hblock := hi.stated.append hloop
    simpa [forTree, Stmt.constants, Stmt.allConstants] using hblock

end Clauses

mutual

theorem Statement.stated : ∀ {flag : Bool} {ts : List Token} {s : Stmt}, Statement flag ts s →
    Stated s.constants ts
  | _, _, _, .expression h _ => h.stated.before _
  | _, _, _, .print _ h _ => (h.stated.before _).skip _
  | _, _, _, .returnValue _ .none _ => .nil
  | _, _, _, .returnValue _ (.some h) _ => (h.stated.before _).skip _
  | _, _, _, .breakLoop _ _ => .nil
  | _, _, _, .continueLoop _ _ => .nil
  | _, _, _, .block _ h => h.stated.skip _
  | _, _, _, .ifThen _ _ hc _ h => .skip _ (.skip _ (hc.stated.append (h.stated.skip _)))
  | _, _, _, .ifElse _ _ hc _ h _ h' =>
    have hbranches := h.stated.append (h'.stated.skip _)
    .skip _ (.skip _ (hc.stated.append (hbranches.skip _)))
  | _, _, _, .whileLoop _ _ hc _ h => .skip _ (.skip _ (hc.stated.append (h.stated.skip _)))
  | _, _, _, .forLoop _ _ hi hc _ hk _ h => by
    refine .skip _ (.skip _ ((forTree_stated hi hc hk h.stated).among ?_))
    intro t ht
    simp only [List.mem_append, List.mem_cons] at ht ⊢
    tauto
termination_by structural _ _ _ h => h

theorem Block.stated : ∀ {ts : List Token} {body : List Stmt}, Block ts body →
    Stated (Stmt.allConstants body) ts
  | _, _, .mk h _ => h.stated.before _
termination_by structural _ _ h => h

theorem Declarations.stated : ∀ {ts : List Token} {body : List Stmt}, Declarations ts body →
    Stated (Stmt.allConstants body) ts
  | _, _, .nil => .nil
  | _, _, .cons h hrest => h.stated.append hrest.stated
termination_by structural _ _ h => h

theorem Declaration.stated : ∀ {ts : List Token} {s : Stmt}, Declaration ts s → Stated s.constants ts
  | _, _, .statement h => h.stated
  | _, _, .var h => h.stated
  | _, _, .function _ h => h.stated.skip _
  | _, _, .classDecl _ _ _ _ hmethods _ =>
    .skip _ (.skip _ (.behind _ (.skip _ (hmethods.stated.before _))))
termination_by structural _ _ h => h

theorem Function.stated : ∀ {ts : List Token} {d : FunctionDecl}, Function ts d → Stated d.constants ts
  | _, _, .mk _ _ _ _ _ _ _ h => .skip _ (.skip _ (.behind _ (.skip _ (h.stated.skip _))))
termination_by structural _ _ h => h

theorem Methods.stated : ∀ {ts : List Token} {ds : List FunctionDecl}, Methods ts ds →
    Stated (FunctionDecl.allConstants ds) ts
  | _, _, .nil => .nil
  | _, _, .cons h hrest => h.stated.append hrest.stated
termination_by structural _ _ h => h

end

end Grammar

theorem constants_stated {source : String} {first : NodeId}
    (hclean : (parse (tokens source) first).faults = []) :
    Stated (Stmt.allConstants (parse (tokens source) first).statements) (tokens source) := by
  obtain ⟨line, hlast, _⟩ := tokens_last source
  rw [hlast] at hclean
  have hprogram := Grammar.program_of_parse (fun t ht => (tokens_front source t ht).1) rfl first hclean
  rw [← hlast] at hprogram
  generalize (parse (tokens source) first).statements = body at hprogram ⊢
  generalize tokens source = ts at hprogram ⊢
  cases hprogram with
  | mk hbody _ => exact hbody.stated.before _

/-! ### Numbers -/

namespace Binary64

theorem isNaN_ofMagnitude {negative : Bool} {m : Nat} (h : m ≤ infiniteMagnitude) :
    (ofMagnitude negative m).isNaN = false := by
  unfold isNaN
  rw [magnitude_ofMagnitude h]
  exact decide_eq_false (not_lt.mpr h)

theorem isNaN_ofDecimal (negative : Bool) (digits : Nat) (exponent : Int) :
    (ofDecimal negative digits exponent).isNaN = false := by
  unfold ofDecimal
  apply isNaN_ofMagnitude
  split_ifs
  · exact Nat.zero_le _
  · exact le_refl _
  · exact Nat.zero_le _
  · exact nearestMagnitude_le _ _

end Binary64

namespace Lexer

variable {c : Char} {cs : List Char} {kind : TokenKind}

theorem numberLiteral_comparable {whole fraction : List Char} {n : Number}
    (h : .number n = numberLiteral whole fraction) : n.IsComparable := by
  obtain rfl := Literal.number.inj h
  split
  · cases hint : Number.ofInt? (Decimal.digitsValue whole : Int) with
    | none => exact Binary64.isNaN_ofDecimal _ _ _
    | some m =>
      unfold Number.ofInt? at hint
      split at hint <;> cases hint
      trivial
  · exact Binary64.isNaN_ofDecimal _ _ _

theorem cutNumber_literal {literal : Literal} (h : (cutNumber cs).piece = .token kind (some literal)) :
    ∃ whole fraction, literal = numberLiteral whole fraction := by
  unfold cutNumber at h
  dsimp only at h
  split at h
  · split at h <;> cases h <;> exact ⟨_, _, rfl⟩
  · cases h
    exact ⟨_, _, rfl⟩

theorem cutPunctuation_literal {literal : Option Literal}
    (h : (cutPunctuation c cs).piece = .token kind literal) : literal = none := by
  unfold cutPunctuation at h
  split at h
  · cases h
    rfl
  · split at h <;> cases h
    rfl

/-- The value of a number token is that of digits, with a fraction or without. -/
theorem cut_numberLiteral {n : Number} (h : (cut c cs).piece = .token kind (some (.number n))) :
    ∃ whole fraction, .number n = numberLiteral whole fraction := by
  revert h
  fun_cases cut c cs with
  | case1 => simp
  | case2 =>
    unfold cutString
    dsimp only
    split <;> simp
  | case3 => exact cutNumber_literal
  | case4 => simp [cutWord]
  | case5 => simp [cutLineComment]
  | case6 =>
    unfold cutBlockComment
    split <;> simp
  | case7 | case8 =>
    intro h
    cases cutPunctuation_literal h

end Lexer

theorem Token.number_comparable {source : String} {t : Token} {n : Number} (ht : t ∈ tokens source)
    (hn : t.literal = some (.number n)) : n.IsComparable := by
  have hliteral : (Lexer.wordOf t.lexeme).2.2 = some (.number n) := by
    rw [← tokens_word source t ht]
    exact hn
  unfold Lexer.wordOf at hliteral
  split at hliteral
  · cases hliteral
  · split at hliteral
    case h_1 hpiece =>
      obtain rfl : _ = some (Literal.number n) := hliteral
      obtain ⟨whole, fraction, h⟩ := Lexer.cut_numberLiteral hpiece
      exact Lexer.numberLiteral_comparable h
    case h_2 => cases hliteral

/-- No number that is written in a program is a NaN. -/
theorem constants_comparable {source : String} {first : NodeId}
    (hclean : (parse (tokens source) first).faults = []) {n : Number}
    (hn : .number n ∈ Stmt.allConstants (parse (tokens source) first).statements) : n.IsComparable := by
  rcases constants_stated hclean _ hn with hword | ⟨t, ht, heq⟩
  · simp [Grammar.constants] at hword
  · refine Token.number_comparable ht ?_
    unfold Parser.constantOf at heq
    split at heq <;> simp_all

end LoxLang
