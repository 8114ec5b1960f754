import LoxLang.Proofs.Grammar.Complete.Expressions

/-!
Statements and declarations of the grammar are read without a fault, and as the trees of their derivations but
for the identities of the nodes; and so are whole programs. An `else` behind a statement is only excluded
where it would belong to the statement.
-/

namespace LoxLang

namespace Grammar

open LoxLang.Parser (Makes)

/-- Reading yields the tree, but for the identities of its nodes. -/
def MakesStmt (x : Parser Stmt) (before : List Token) (stmt : Stmt) (rest : List Token) : Prop :=
  Makes x before (stmt.Alike Skew.renumbering) rest

/-! ### Clauses -/

section Clauses

variable {ts rest : List Token} {n : Nat}

theorem Optional.made {e : Option Expr} (h : Optional ts e) (hn : (ts ++ rest).length ≤ n)
    {kind : TokenKind} (hkind : kind = .semicolon ∨ kind = .rightParen) (hrest : Begins (· = kind) rest) :
    Makes (Parser.expressionUnless n kind) (ts ++ rest)
      (Option.Rel (Expr.Alike Skew.renumbering) e) rest := by
  obtain ⟨closing, us, rfl, hclosing⟩ := hrest
  cases h with
  | none =>
    apply Makes.checked_true hclosing
    exact .pure .none
  | some h =>
    have hclosed : Closed (closing :: us) := by
      apply begins_cons.mpr
      rcases hkind with rfl | rfl
      · exact .inr (.inr hclosing)
      · exact .inl hclosing
    have hread := h.made n (closing :: us) hn hclosed
    obtain ⟨t, vs, rfl, ht⟩ := h.begins
    have hne : t.kind ≠ kind := by
      have hword := Parser.expressionWord_ne ht
      rcases hkind with rfl | rfl
      · exact hword.2.1
      · exact hword.1
    apply Makes.checked_false hne
    apply hread.bind
    intro e' he
    exact .pure (.some he)

theorem Initializer.made {e : Option Expr} (h : Initializer ts e) (hn : (ts ++ rest).length ≤ n)
    (hrest : Begins (· = .semicolon) rest) :
    Makes (Parser.initializer n) (ts ++ rest) (Option.Rel (Expr.Alike Skew.renumbering) e) rest := by
  obtain ⟨semicolon, us, rfl, hsemicolon⟩ := hrest
  cases h with
  | none =>
    apply Makes.refused (hsemicolon.trans_ne (by simp))
    exact .pure .none
  | some hequals h =>
    simp only [List.cons_append, List.length_cons] at hn
    apply Makes.accepted hequals
    apply (h.made n (semicolon :: us) (by omega) (begins_cons.mpr (.inr (.inr hsemicolon)))).bind
    intro e' he
    exact .pure (.some he)

/-- The rest of a declaration of a variable, behind its keyword. -/
theorem VarDeclaration.made {stmt : Stmt} (h : VarDeclaration ts stmt) (hn : (ts ++ rest).length ≤ n + 1) :
    ∃ keyword us, ts = keyword :: us ∧ keyword.kind = .kwVar ∧
      MakesStmt (Parser.varDeclaration n) (us ++ rest) stmt rest := by
  cases h with
  | mk hkeyword hname hvalue hsemicolon =>
    refine ⟨_, _, rfl, hkeyword, ?_⟩
    simp only [List.cons_append, List.append_assoc, List.nil_append, List.length_cons] at hn ⊢
    apply Makes.named hname
    apply (hvalue.made (by omega) (begins_cons.mpr hsemicolon)).bind
    intro value hvalue'
    apply Makes.expected hsemicolon
    exact .pure (.var (alike_ident _) hvalue')

theorem expressionStatement_made {semicolon : Token} {e : Expr} (h : Expression ts e)
    (hsemicolon : semicolon.kind = .semicolon) (hn : (ts ++ semicolon :: rest).length ≤ n) :
    MakesStmt (Parser.expressionStatement n) (ts ++ semicolon :: rest) (.expression e) rest := by
  apply (h.made n _ hn (begins_cons.mpr (.inr (.inr hsemicolon)))).bind
  intro e' he
  apply Makes.expected hsemicolon
  exact .pure (.expression he)

theorem ForInitializer.made {i : Option Stmt} (h : ForInitializer ts i) (hn : (ts ++ rest).length ≤ n) :
    Makes (Parser.forInitializer n) (ts ++ rest) (Option.Rel (Stmt.Alike Skew.renumbering) i) rest := by
  cases h with
  | none hsemicolon =>
    apply Makes.accepted hsemicolon
    exact .pure .none
  | var h =>
    obtain ⟨keyword, us, rfl, hkeyword, hread⟩ := h.made (n := n) (Nat.le_succ_of_le hn)
    apply Makes.refused (hkeyword.trans_ne (by simp))
    apply Makes.accepted hkeyword
    apply hread.bind
    intro stmt hstmt
    exact .pure (.some hstmt)
  | expression h hsemicolon =>
    rw [List.append_assoc] at hn ⊢
    have hread := expressionStatement_made h hsemicolon hn
    obtain ⟨t, vs, rfl, ht⟩ := h.begins
    have hword := Parser.expressionWord_ne ht
    apply Makes.refused hword.2.1
    apply Makes.refused hword.2.2
    apply hread.bind
    intro stmt hstmt
    exact .pure (.some hstmt)

theorem forTree_alike {i i' : Option Stmt} {c c' k k' : Option Expr} {s s' : Stmt}
    (hi : Option.Rel (Stmt.Alike Skew.renumbering) i i')
    (hc : Option.Rel (Expr.Alike Skew.renumbering) c c')
    (hk : Option.Rel (Expr.Alike Skew.renumbering) k k') (hs : s.Alike Skew.renumbering s') :
    (forTree i c k s).Alike Skew.renumbering (forTree i' c' k' s') := by
  have hcondition : (c.getD (.constant (.bool true))).Alike Skew.renumbering
      (c'.getD (.constant (.bool true))) := by
    cases hc with
    | none => exact .constant _
    | some hc => exact hc
  have hloop := Stmt.Alike.loop hcondition hs hk
  cases hi with
  | none => exact hloop
  | some hi => exact .block (.cons hi (.cons hloop .nil))

theorem Parameters.made {names : List Ident} (h : Parameters ts names) (k count : Nat)
    (hk : (ts ++ rest).length ≤ k) (hmax : count + names.length ≤ maxList)
    (hrest : Begins (· = .rightParen) rest) :
    Makes (Parser.parametersFrom k count) (ts ++ rest) (· = names) rest := by
  induction h generalizing k count with
  | last hname =>
    obtain ⟨t, us, rfl, ht⟩ := hrest
    cases k with
    | zero => simp at hk
    | succ k =>
      apply (Makes.checkArity hmax _).bind
      intro _ _
      apply Makes.named hname
      apply Makes.refused (ht.trans_ne (by simp))
      exact .pure rfl
  | more hname hcomma _ ih =>
    simp only [List.cons_append, List.length_cons] at hk hmax
    cases k with
    | zero => omega
    | succ k =>
      apply (Makes.checkArity (lt_maxArity hmax) _).bind
      intro _ _
      apply Makes.named hname
      apply Makes.accepted hcomma
      apply (ih k (count + 1) (by omega) (by omega)).bind
      rintro _ rfl
      exact .pure rfl

theorem ParameterList.made {names : List Ident} (h : ParameterList ts names)
    (hn : (ts ++ rest).length ≤ n) (hmax : names.length ≤ maxList) (hrest : Begins (· = .rightParen) rest) :
    Makes (Parser.parameters n) (ts ++ rest) (· = names) rest := by
  cases h with
  | none =>
    obtain ⟨t, us, rfl, ht⟩ := hrest
    apply Makes.checked_true ht
    exact .pure rfl
  | some h =>
    have hread := h.made n 0 hn (by omega) hrest
    cases h with
    | last hname => exact Makes.checked_false (hname.trans_ne (by simp)) hread
    | more hname _ _ => exact Makes.checked_false (hname.trans_ne (by simp)) hread

theorem Superclass.made {r : Option Reference} (h : Superclass ts r) (hrest : Begins (· = .leftBrace) rest) :
    Makes Parser.superclass (ts ++ rest) (Option.Rel (Reference.Alike Skew.renumbering) r) rest := by
  cases h with
  | none =>
    obtain ⟨t, us, rfl, ht⟩ := hrest
    apply Makes.refused (ht.trans_ne (by simp))
    exact .pure .none
  | some id hless hname =>
    apply Makes.accepted hless
    apply Makes.named hname
    apply (Makes.reference _).bind
    intro r hr
    exact .pure (.some ⟨trivial, hr ▸ alike_ident _⟩)

end Clauses

/-! ### Statements -/

def StatementMade (flag : Bool) (ts : List Token) (stmt : Stmt) : Prop :=
  ∀ (n m : Nat) (rest : List Token), (ts ++ rest).length ≤ n → (ts ++ rest).length ≤ m + 1 →
    Settled flag rest →
      MakesStmt (Parser.statementWith n (Parser.statement m) (Parser.block m)) (ts ++ rest) stmt rest

def BlockMade (ts : List Token) (body : List Stmt) : Prop :=
  ∀ (m : Nat) (rest : List Token), (ts ++ rest).length ≤ m →
    Makes (Parser.block m) (ts ++ rest) (List.Forall₂ (Stmt.Alike Skew.renumbering) body) rest

def DeclarationMade (ts : List Token) (stmt : Stmt) : Prop :=
  ∀ (n m : Nat) (rest : List Token), (ts ++ rest).length ≤ n → (ts ++ rest).length ≤ m + 1 →
    Settled true rest →
      Makes (Parser.declarationWith n (Parser.statement m) (Parser.block m)) (ts ++ rest)
        (fun r => ∃ stmt', r = some stmt' ∧ stmt.Alike Skew.renumbering stmt') rest

def DeclarationsMade (ts : List Token) (body : List Stmt) : Prop :=
  ∀ (n m k : Nat) (rest : List Token), (ts ++ rest).length ≤ n → (ts ++ rest).length ≤ m + 1 →
    (ts ++ rest).length ≤ k → Begins (· = .rightBrace) rest →
      Makes (Parser.declarationsFrom
          (Parser.declarationWith n (Parser.statement m) (Parser.block m)) k) (ts ++ rest)
        (List.Forall₂ (Stmt.Alike Skew.renumbering) body) rest

def FunctionMade (ts : List Token) (d : FunctionDecl) : Prop :=
  ∀ (n m : Nat) (kind : String) (rest : List Token), (ts ++ rest).length ≤ n + 1 →
    (ts ++ rest).length ≤ m →
      Makes (Parser.function n (Parser.block m) kind) (ts ++ rest) (d.Alike Skew.renumbering) rest

def MethodsMade (ts : List Token) (ds : List FunctionDecl) : Prop :=
  ∀ (n m : Nat) (rest : List Token), (ts ++ rest).length ≤ n → (ts ++ rest).length ≤ m →
    Begins (· = .rightBrace) rest →
      Makes (Parser.methodsFrom (Parser.block m) n) (ts ++ rest)
        (List.Forall₂ (FunctionDecl.Alike Skew.renumbering) ds) rest

section Statements

variable {flag : Bool} {ts us rest : List Token} {keyword opening closing semicolon : Token} {e : Expr}
  {s t : Stmt} {body : List Stmt}

/-- A statement inside another one. -/
theorem StatementMade.inner (h : StatementMade flag ts s) (hbegins : Begins (Parser.statementWord ·) ts)
    {m : Nat} (hm : (ts ++ rest).length ≤ m) (hrest : Settled flag rest) :
    MakesStmt (Parser.statement m) (ts ++ rest) s rest := by
  cases m with
  | zero =>
    have hlength := hbegins.length_pos
    rw [List.length_append] at hm
    omega
  | succ m => exact h (m + 1) m rest hm hm hrest

theorem StatementMade.expression (h : Expression ts e) (hsemicolon : semicolon.kind = .semicolon) :
    StatementMade false (ts ++ [semicolon]) (.expression e) := by
  intro n m rest hn hm _
  rw [List.append_assoc] at hn ⊢
  have hread := expressionStatement_made h hsemicolon hn
  obtain ⟨t, us, rfl, ht⟩ := h.begins
  apply Makes.passed (Parser.statementLead?_none ht)
  exact hread

theorem StatementMade.print (hkeyword : keyword.kind = .kwPrint) (h : Expression ts e)
    (hsemicolon : semicolon.kind = .semicolon) :
    StatementMade false (keyword :: (ts ++ [semicolon])) (.print e) := by
  intro n m rest hn hm _
  simp only [List.cons_append, List.append_assoc, List.nil_append, List.length_cons] at hn ⊢
  apply Makes.chosen ((Parser.statementLead?_iff .print).mpr hkeyword)
  apply (h.made n (semicolon :: rest) (by omega) (begins_cons.mpr (.inr (.inr hsemicolon)))).bind
  intro e' he
  apply Makes.expected hsemicolon
  exact .pure (.print he)

theorem StatementMade.returnValue {value : Option Expr} (hkeyword : keyword.kind = .kwReturn)
    (h : Optional ts value) (hsemicolon : semicolon.kind = .semicolon) :
    StatementMade false (keyword :: (ts ++ [semicolon])) (.returnValue keyword.position value) := by
  intro n m rest hn hm _
  simp only [List.cons_append, List.append_assoc, List.nil_append, List.length_cons] at hn ⊢
  apply Makes.chosen ((Parser.statementLead?_iff .return).mpr hkeyword)
  apply (h.made (by omega) (.inl rfl) (begins_cons.mpr hsemicolon)).bind
  intro value' hvalue
  apply Makes.expected hsemicolon
  exact .pure (.returnValue rfl hvalue)

theorem StatementMade.breakLoop (hkeyword : keyword.kind = .kwBreak)
    (hsemicolon : semicolon.kind = .semicolon) :
    StatementMade false [keyword, semicolon] (.breakLoop keyword.position) := by
  intro n m rest _ _ _
  apply Makes.chosen ((Parser.statementLead?_iff .break).mpr hkeyword)
  apply Makes.expected hsemicolon
  exact .pure (.breakLoop rfl)

theorem StatementMade.continueLoop (hkeyword : keyword.kind = .kwContinue)
    (hsemicolon : semicolon.kind = .semicolon) :
    StatementMade false [keyword, semicolon] (.continueLoop keyword.position) := by
  intro n m rest _ _ _
  apply Makes.chosen ((Parser.statementLead?_iff .continue).mpr hkeyword)
  apply Makes.expected hsemicolon
  exact .pure (.continueLoop rfl)

theorem StatementMade.block (hopening : opening.kind = .leftBrace) (h : BlockMade ts body) :
    StatementMade false (opening :: ts) (.block body) := by
  intro n m rest _ hm _
  apply Makes.chosen ((Parser.statementLead?_iff .block).mpr hopening)
  apply (h m rest (Nat.le_of_succ_le_succ hm)).bind
  intro body' hbody
  exact .pure (.block hbody)

theorem StatementMade.ifThen (hkeyword : keyword.kind = .kwIf) (hopening : opening.kind = .leftParen)
    (hcondition : Expression ts e) (hclosing : closing.kind = .rightParen) (h : StatementMade flag us s)
    (hbegins : Begins (Parser.statementWord ·) us) :
    StatementMade true (keyword :: opening :: (ts ++ closing :: us)) (.ifThen e s) := by
  intro n m rest hn hm hrest
  simp only [List.cons_append, List.append_assoc, List.length_cons] at hn hm ⊢
  apply Makes.chosen ((Parser.statementLead?_iff .if).mpr hkeyword)
  apply Makes.expected hopening
  apply (hcondition.made n _ (by omega) (begins_cons.mpr (.inl hclosing))).bind
  intro e' he
  apply Makes.expected hclosing
  simp only [List.length_append, List.length_cons] at hm
  apply (h.inner hbegins (by rw [List.length_append]; omega) fun _ => hrest rfl).bind
  intro s' hs
  apply Makes.not_accepted (hrest rfl)
  exact .pure (.ifThen he hs)

theorem StatementMade.ifElse {vs : List Token} {otherwise : Token} (hkeyword : keyword.kind = .kwIf)
    (hopening : opening.kind = .leftParen) (hcondition : Expression ts e)
    (hclosing : closing.kind = .rightParen) (hfirst : StatementMade false us s)
    (hbegins : Begins (Parser.statementWord ·) us) (hotherwise : otherwise.kind = .kwElse)
    (hsecond : StatementMade flag vs t) (hbegins' : Begins (Parser.statementWord ·) vs) :
    StatementMade flag (keyword :: opening :: (ts ++ closing :: (us ++ otherwise :: vs)))
      (.ifElse e s t) := by
  intro n m rest hn hm hrest
  simp only [List.cons_append, List.append_assoc, List.length_cons] at hn hm ⊢
  apply Makes.chosen ((Parser.statementLead?_iff .if).mpr hkeyword)
  apply Makes.expected hopening
  apply (hcondition.made n _ (by omega) (begins_cons.mpr (.inl hclosing))).bind
  intro e' he
  apply Makes.expected hclosing
  simp only [List.length_append, List.length_cons] at hm
  apply (hfirst.inner hbegins (by simp; omega) nofun).bind
  intro s' hs
  apply Makes.accepted hotherwise
  apply (hsecond.inner hbegins' (by simp; omega) hrest).bind
  intro t' ht
  exact .pure (.ifElse he hs ht)

theorem StatementMade.whileLoop (hkeyword : keyword.kind = .kwWhile) (hopening : opening.kind = .leftParen)
    (hcondition : Expression ts e) (hclosing : closing.kind = .rightParen) (h : StatementMade flag us s)
    (hbegins : Begins (Parser.statementWord ·) us) :
    StatementMade flag (keyword :: opening :: (ts ++ closing :: us)) (.loop e s none) := by
  intro n m rest hn hm hrest
  simp only [List.cons_append, List.append_assoc, List.length_cons] at hn hm ⊢
  apply Makes.chosen ((Parser.statementLead?_iff .while).mpr hkeyword)
  apply Makes.expected hopening
  apply (hcondition.made n _ (by omega) (begins_cons.mpr (.inl hclosing))).bind
  intro e' he
  apply Makes.expected hclosing
  simp only [List.length_append, List.length_cons] at hm
  apply (h.inner hbegins (by rw [List.length_append]; omega) hrest).bind
  intro s' hs
  exact .pure (.loop he hs .none)

theorem StatementMade.forLoop {first second third : List Token} {i : Option Stmt} {c k : Option Expr}
    (hkeyword : keyword.kind = .kwFor) (hopening : opening.kind = .leftParen)
    (hi : ForInitializer first i) (hc : Optional second c) (hsemicolon : semicolon.kind = .semicolon)
    (hk : Optional third k) (hclosing : closing.kind = .rightParen) (h : StatementMade flag us s)
    (hbegins : Begins (Parser.statementWord ·) us) :
    StatementMade flag (keyword :: opening :: (first ++ (second ++ semicolon :: (third ++ closing :: us))))
      (forTree i c k s) := by
  intro n m rest hn hm hrest
  simp only [List.cons_append, List.append_assoc, List.length_cons, List.length_append] at hn hm ⊢
  apply Makes.chosen ((Parser.statementLead?_iff .for).mpr hkeyword)
  show MakesStmt (Parser.forStatement n (Parser.statement m)) _ _ _
  rw [Parser.forStatement_eq]
  apply Makes.expected hopening
  apply (hi.made (by simp; omega)).bind
  intro i' hi'
  apply (hc.made (by simp; omega) (.inl rfl) (begins_cons.mpr hsemicolon)).bind
  intro c' hc'
  apply Makes.expected hsemicolon
  apply (hk.made (by simp; omega) (.inr rfl) (begins_cons.mpr hclosing)).bind
  intro k' hk'
  apply Makes.expected hclosing
  apply (h.inner hbegins (by simp; omega) hrest).bind
  intro s' hs
  exact .pure (forTree_alike hi' hc' hk' hs)

end Statements

/-! ### Declarations -/

section Declarations

variable {ts us rest : List Token} {keyword name opening closing : Token} {s : Stmt} {body : List Stmt}
  {d : FunctionDecl} {ds : List FunctionDecl}

theorem StatementMade.declaration {flag : Bool} (h : StatementMade flag ts s)
    (hbegins : Begins (Parser.statementWord ·) ts) : DeclarationMade ts s := by
  intro n m rest hn hm hrest
  have hread := h n m rest hn hm fun _ => hrest rfl
  obtain ⟨t, us, rfl, ht⟩ := hbegins
  apply Makes.recovering
  apply Makes.passed (Parser.declarationLead?_none ht)
  exact hread

theorem VarDeclaration.declarationMade (h : VarDeclaration ts s) : DeclarationMade ts s := by
  intro n m rest hn _ _
  obtain ⟨keyword, us, rfl, hkeyword, hread⟩ := h.made (Nat.le_succ_of_le hn)
  apply Makes.recovering
  apply Makes.chosen ((Parser.declarationLead?_iff .kwVar).mpr hkeyword)
  exact hread

theorem FunctionMade.declaration (hkeyword : keyword.kind = .kwFun) (h : FunctionMade ts d) :
    DeclarationMade (keyword :: ts) (.function d) := by
  intro n m rest hn hm _
  simp only [List.cons_append, List.length_cons] at hn hm ⊢
  apply Makes.recovering
  apply Makes.chosen ((Parser.declarationLead?_iff .kwFun).mpr hkeyword)
  apply (h n m _ rest (by omega) (by omega)).bind
  intro d' hd
  exact .pure (.function hd)

theorem MethodsMade.classDecl {r : Option Reference} (hkeyword : keyword.kind = .kwClass)
    (hname : name.kind = .identifier) (hr : Superclass ts r) (hopening : opening.kind = .leftBrace)
    (h : MethodsMade us ds) (hclosing : closing.kind = .rightBrace) :
    DeclarationMade (keyword :: name :: (ts ++ opening :: (us ++ [closing])))
      (.classDecl (ident name) r ds) := by
  intro n m rest hn hm _
  simp only [List.cons_append, List.append_assoc, List.nil_append, List.length_cons,
    List.length_append] at hn hm ⊢
  apply Makes.recovering
  apply Makes.chosen ((Parser.declarationLead?_iff .kwClass).mpr hkeyword)
  apply Makes.named hname
  apply (hr.made (begins_cons.mpr hopening)).bind
  intro r' hr'
  apply Makes.expected hopening
  apply (h n m _ (by simp; omega) (by simp; omega) (begins_cons.mpr hclosing)).bind
  intro ds' hds
  apply Makes.expected hclosing
  exact .pure (.classDecl (alike_ident _) hr' hds)

theorem BlockMade.function {names : List Ident} {brace : Token} (id : NodeId)
    (hname : name.kind = .identifier) (hopening : opening.kind = .leftParen) (hnames : ParameterList ts names)
    (hmax : names.length ≤ maxList) (hclosing : closing.kind = .rightParen)
    (hbrace : brace.kind = .leftBrace) (h : BlockMade us body) :
    FunctionMade (name :: opening :: (ts ++ closing :: brace :: us)) ⟨id, ident name, names, body⟩ := by
  intro n m kind rest hn hm
  simp only [List.cons_append, List.append_assoc, List.length_cons, List.length_append] at hn hm ⊢
  apply Makes.named hname
  apply Makes.expected hopening
  apply (hnames.made (by simp; omega) hmax (begins_cons.mpr hclosing)).bind
  rintro _ rfl
  apply Makes.expected hclosing
  apply Makes.expected hbrace
  apply (h m rest (by simp; omega)).bind
  intro body' hbody
  apply Makes.freshId.bind
  intro id' _
  exact .pure (.mk trivial (alike_ident _) (alike_idents _) hbody)

theorem MethodsMade.nil : MethodsMade [] [] := by
  rintro n m rest hn _ ⟨t, us, rfl, ht⟩
  cases n with
  | zero => cases hn
  | succ n =>
    apply Makes.checked_true ht
    apply Makes.checked_false (ht.trans_ne (by simp))
    exact .pure .nil

theorem MethodsMade.cons (hd : FunctionMade ts d) (hbegins : Begins (· = .identifier) ts)
    (h : MethodsMade us ds) : MethodsMade (ts ++ us) (d :: ds) := by
  intro n m rest hn hm hrest
  have hlength := hbegins.length_pos
  rw [List.append_assoc] at hn hm ⊢
  cases n with
  | zero =>
    rw [List.length_append] at hn
    omega
  | succ n =>
    simp only [List.length_append] at hn hm hlength
    have hread : Makes (do
        let d' ← Parser.function n (Parser.block m) "method"
        return d' :: (← Parser.methodsFrom (Parser.block m) n)) (ts ++ (us ++ rest))
          (List.Forall₂ (FunctionDecl.Alike Skew.renumbering) (d :: ds)) rest := by
      apply (hd n m "method" (us ++ rest) (by simp; omega) (by simp; omega)).bind
      intro d' hd'
      apply (h n m rest (by simp; omega) (by simp; omega) hrest).bind
      intro ds' hds
      exact .pure (.cons hd' hds)
    obtain ⟨t, vs, rfl, ht⟩ := hbegins
    apply Makes.checked_false (ht.trans_ne (by simp))
    apply Makes.checked_false (ht.trans_ne (by simp))
    exact hread

theorem DeclarationsMade.nil : DeclarationsMade [] [] := by
  rintro n m k rest _ _ hk ⟨t, us, rfl, ht⟩
  cases k with
  | zero => cases hk
  | succ k =>
    apply Makes.checked_true ht
    apply Makes.checked_false (ht.trans_ne (by simp))
    exact .pure .nil

/-- A declaration behind another one does not begin with an `else`. -/
theorem Declarations.settled (h : Declarations us body) (hrest : Settled true rest) :
    Settled true (us ++ rest) := by
  cases h with
  | nil => exact hrest
  | cons h _ =>
    obtain ⟨t, vs, rfl, ht⟩ := h.begins
    intro _ u us hcons
    cases hcons
    exact (Parser.declarationWord_ne ht).2.2

theorem settled_of_begins {kind : TokenKind} (h : Begins (· = kind) rest) (hkind : kind ≠ .kwElse) :
    Settled true rest := by
  obtain ⟨t, us, rfl, ht⟩ := h
  intro _ u us' hcons
  cases hcons
  exact ht.trans_ne hkind

theorem DeclarationsMade.cons (hs : DeclarationMade ts s) (hbegins : Begins (Parser.declarationWord ·) ts)
    (h : DeclarationsMade us body) (hus : Declarations us body) :
    DeclarationsMade (ts ++ us) (s :: body) := by
  intro n m k rest hn hm hk hrest
  have hlength := hbegins.length_pos
  have hsettled := hus.settled (settled_of_begins hrest (by simp))
  rw [List.append_assoc] at hn hm hk ⊢
  cases k with
  | zero =>
    rw [List.length_append] at hk
    omega
  | succ k =>
    simp only [List.length_append] at hn hm hk hlength
    have hread : Makes (do
        let s' ← Parser.declarationWith n (Parser.statement m) (Parser.block m)
        return s'.toList ++ (← Parser.declarationsFrom
          (Parser.declarationWith n (Parser.statement m) (Parser.block m)) k)) (ts ++ (us ++ rest))
          (List.Forall₂ (Stmt.Alike Skew.renumbering) (s :: body)) rest := by
      apply (hs n m (us ++ rest) (by simp; omega) (by simp; omega) hsettled).bind
      rintro _ ⟨s', rfl, hs'⟩
      apply (h n m k rest (by simp; omega) (by simp; omega) (by simp; omega) hrest).bind
      intro body' hbody
      exact .pure (.cons hs' hbody)
    obtain ⟨t, vs, rfl, ht⟩ := hbegins
    have hword := Parser.declarationWord_ne ht
    apply Makes.checked_false hword.1
    apply Makes.checked_false hword.2.1
    exact hread

theorem DeclarationsMade.block (h : DeclarationsMade ts body) (hclosing : closing.kind = .rightBrace) :
    BlockMade (ts ++ [closing]) body := by
  intro m rest hm
  rw [List.append_assoc] at hm ⊢
  cases m with
  | zero => simp at hm
  | succ m =>
    apply (h (m + 1) m (m + 1) _ hm hm hm (begins_cons.mpr hclosing)).bind
    intro body' hbody
    apply Makes.expected hclosing
    exact .pure hbody

end Declarations

mutual

theorem Statement.made : ∀ {flag : Bool} {ts : List Token} {s : Stmt}, Statement flag ts s →
    StatementMade flag ts s
  | _, _, _, .expression h hsemicolon => .expression h hsemicolon
  | _, _, _, .print hkeyword h hsemicolon => .print hkeyword h hsemicolon
  | _, _, _, .returnValue hkeyword h hsemicolon => .returnValue hkeyword h hsemicolon
  | _, _, _, .breakLoop hkeyword hsemicolon => .breakLoop hkeyword hsemicolon
  | _, _, _, .continueLoop hkeyword hsemicolon => .continueLoop hkeyword hsemicolon
  | _, _, _, .block hopening h => .block hopening h.made
  | _, _, _, .ifThen hkeyword hopening hc hclosing h =>
    .ifThen hkeyword hopening hc hclosing h.made h.begins
  | _, _, _, .ifElse hkeyword hopening hc hclosing h hotherwise h' =>
    .ifElse hkeyword hopening hc hclosing h.made h.begins hotherwise h'.made h'.begins
  | _, _, _, .whileLoop hkeyword hopening hc hclosing h =>
    .whileLoop hkeyword hopening hc hclosing h.made h.begins
  | _, _, _, .forLoop hkeyword hopening hi hc hsemicolon hk hclosing h =>
    .forLoop hkeyword hopening hi hc hsemicolon hk hclosing h.made h.begins
termination_by structural _ _ _ h => h

theorem Block.made : ∀ {ts : List Token} {body : List Stmt}, Block ts body → BlockMade ts body
  | _, _, .mk h hclosing => h.made.block hclosing
termination_by structural _ _ h => h

theorem Declarations.made : ∀ {ts : List Token} {body : List Stmt}, Declarations ts body →
    DeclarationsMade ts body
  | _, _, .nil => .nil
  | _, _, .cons hs h => .cons hs.made hs.begins h.made h
termination_by structural _ _ h => h

theorem Declaration.made : ∀ {ts : List Token} {s : Stmt}, Declaration ts s → DeclarationMade ts s
  | _, _, .statement h => h.made.declaration h.begins
  | _, _, .var h => h.declarationMade
  | _, _, .function hkeyword h => h.made.declaration hkeyword
  | _, _, .classDecl hkeyword hname hr hopening h hclosing =>
    h.made.classDecl hkeyword hname hr hopening hclosing
termination_by structural _ _ h => h

theorem Function.made : ∀ {ts : List Token} {d : FunctionDecl}, Function ts d → FunctionMade ts d
  | _, _, .mk id hname hopening hnames hmax hclosing hbrace h =>
    h.made.function id hname hopening hnames hmax hclosing hbrace
termination_by structural _ _ h => h

theorem Methods.made : ∀ {ts : List Token} {ds : List FunctionDecl}, Methods ts ds → MethodsMade ts ds
  | _, _, .nil => .nil
  | _, _, .cons hd h => .cons hd.made hd.begins h.made
termination_by structural _ _ h => h

end

/-! ### Programs -/

/-- At the top level, declarations go on up to the end of the file. -/
def ProgramMade (ts : List Token) (body : List Stmt) : Prop :=
  ∀ (last : Token) (n k : Nat), last.kind = .eof → (ts ++ [last]).length ≤ n →
    (ts ++ [last]).length ≤ k →
      Makes (Parser.programFrom (Parser.declaration n) k) (ts ++ [last])
        (List.Forall₂ (Stmt.Alike Skew.renumbering) body) [last]

theorem ProgramMade.nil : ProgramMade [] [] := by
  intro last n k hlast _ hk
  cases k with
  | zero => cases hk
  | succ k =>
    apply Makes.checked_true hlast
    exact .pure .nil

theorem ProgramMade.cons {ts us : List Token} {s : Stmt} {body : List Stmt} (hs : Declaration ts s)
    (hus : Declarations us body) (h : ProgramMade us body) : ProgramMade (ts ++ us) (s :: body) := by
  intro last n k hlast hn hk
  have hlength := hs.begins.length_pos
  have hend : Begins (· = .eof) [last] := begins_cons.mpr hlast
  have hsettled := hus.settled (settled_of_begins hend (by simp))
  rw [List.append_assoc] at hn hk ⊢
  simp only [List.length_append, List.length_singleton] at hn hk
  cases k with
  | zero => omega
  | succ k =>
    have hread : Makes (do
        let s' ← Parser.declaration n
        return s'.toList ++ (← Parser.programFrom (Parser.declaration n) k)) (ts ++ (us ++ [last]))
          (List.Forall₂ (Stmt.Alike Skew.renumbering) (s :: body)) [last] := by
      apply (hs.made n n (us ++ [last]) (by simp; omega) (by simp; omega) hsettled).bind
      rintro _ ⟨s', rfl, hs'⟩
      apply (h last n k hlast (by simp; omega) (by simp; omega)).bind
      intro body' hbody
      exact .pure (.cons hs' hbody)
    obtain ⟨t, vs, rfl, ht⟩ := hs.begins
    apply Makes.checked_false (Parser.declarationWord_ne ht).2.1
    exact hread

theorem Declarations.programMade : ∀ {ts : List Token} {body : List Stmt}, Declarations ts body →
    ProgramMade ts body
  | _, _, .nil => .nil
  | _, _, .cons hs h => .cons hs h h.programMade
termination_by structural _ _ h => h

end Grammar

end LoxLang
