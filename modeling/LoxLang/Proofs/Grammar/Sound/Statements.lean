import LoxLang.Proofs.Grammar.Sound.Expressions

/-!
Statements and declarations that are read without a fault belong to the grammar, and so do whole programs.
Those rules that consume a token only where they succeed say what they read if their number has been enough.
-/

namespace LoxLang

namespace Parser

open LoxLang.Grammar

/-! ### Statements -/

/-- The tokens in front are read as a statement, and an `else` behind them is not left to it. -/
def SpansStatement (before : List Token) (stmt : Stmt) (rest : List Token) : Prop :=
  ∃ flag, Spans (Statement flag) before stmt rest ∧ Settled flag rest

theorem SpansStatement.closed {before rest : List Token} {stmt : Stmt}
    (h : Spans (Statement false) before stmt rest) : SpansStatement before stmt rest :=
  ⟨false, h, fun hflag => by cases hflag⟩

/-- The rule reads statements, of up to `m` tokens. -/
def ReadsStatement (m : Nat) (p : Parser Stmt) : Prop :=
  ∀ s : State, s.rest.length ≤ m → Reads s p (SpansStatement s.rest)

namespace Reads

section Statements

variable {s : State} {p : Parser Stmt} {b : Parser (List Stmt)} {m n : Nat}

theorem expressionUnless (hn : s.rest.length ≤ n) (kind : TokenKind) :
    Reads s (Parser.expressionUnless n kind) (Spans Optional s.rest) := by
  apply checked
  cases s.front.kind == kind with
  | true => exact .pure fun _ => ⟨[], rfl, .none⟩
  | false =>
    apply (expression n s hn).bind
    intro e s₁ _
    exact .pure fun _ ⟨ts, hts, he⟩ => ⟨ts, hts, .some he⟩

theorem initializer (hn : s.rest.length ≤ n) :
    Reads s (Parser.initializer n) (Spans Initializer s.rest) := by
  apply accepted (by simp)
  · intro _
    exact .pure fun _ => ⟨[], rfl, .none⟩
  · intro equals s₁ h₁ hequals
    have hlength := length_of_cons h₁
    apply (expression n s₁ (by omega)).bind
    intro e s₂ _
    exact .pure fun _ ⟨ts, hts, he⟩ => ⟨equals :: ts, by simp [h₁, hts], .some hequals he⟩

theorem varDeclaration (hn : s.rest.length ≤ n) {keyword : Token} (hkeyword : keyword.kind = .kwVar) :
    Reads s (Parser.varDeclaration n) (Spans VarDeclaration (keyword :: s.rest)) := by
  apply (identifier _).bind
  intro name s₁ h₁
  apply (initializer (by omega)).bind
  intro value s₂ _
  apply (expect (by simp) _).bind
  intro semicolon s₃ _
  apply Reads.pure
  rintro _ ⟨h₃, hsemicolon⟩ ⟨ts, hts, hvalue⟩ ⟨t, ht, hname, rfl⟩
  refine ⟨keyword :: t :: (ts ++ [semicolon]), by simp [ht, hts, h₃], ?_⟩
  exact .mk hkeyword hname hvalue hsemicolon

theorem expressionStatement (hn : s.rest.length ≤ n) :
    Reads s (Parser.expressionStatement n) fun stmt rest => ∃ ts e semicolon,
      s.rest = ts ++ semicolon :: rest ∧ Expression ts e ∧ semicolon.kind = .semicolon ∧
        stmt = .expression e := by
  apply (expression n s hn).bind
  intro e s₁ _
  apply (expect (by simp) _).bind
  intro semicolon s₂ _
  apply Reads.pure
  rintro _ ⟨h₂, hsemicolon⟩ ⟨ts, hts, he⟩
  exact ⟨ts, e, semicolon, by rw [hts, h₂], he, hsemicolon, rfl⟩

theorem printStatement (hn : s.rest.length ≤ n) {keyword : Token} (hkeyword : keyword.kind = .kwPrint) :
    Reads s (Parser.printStatement n) (SpansStatement (keyword :: s.rest)) := by
  apply (expression n s hn).bind
  intro e s₁ _
  apply (expect (by simp) _).bind
  intro semicolon s₂ _
  apply Reads.pure
  rintro _ ⟨h₂, hsemicolon⟩ ⟨ts, hts, he⟩
  refine .closed ⟨keyword :: (ts ++ [semicolon]), by simp [hts, h₂], ?_⟩
  exact .print hkeyword he hsemicolon

theorem returnStatement (hn : s.rest.length ≤ n) {keyword : Token} (hkeyword : keyword.kind = .kwReturn) :
    Reads s (Parser.returnStatement n keyword) (SpansStatement (keyword :: s.rest)) := by
  apply (expressionUnless hn _).bind
  intro value s₁ _
  apply (expect (by simp) _).bind
  intro semicolon s₂ _
  apply Reads.pure
  rintro _ ⟨h₂, hsemicolon⟩ ⟨ts, hts, hvalue⟩
  refine .closed ⟨keyword :: (ts ++ [semicolon]), by simp [hts, h₂], ?_⟩
  exact .returnValue hkeyword hvalue hsemicolon

/-- An `else` is read by the innermost statement that can have one. -/
theorem ifStatement (hp : ReadsStatement m p) (hn : s.rest.length ≤ n) (hm : s.rest.length ≤ m)
    {keyword : Token} (hkeyword : keyword.kind = .kwIf) :
    Reads s (Parser.ifStatement n p) (SpansStatement (keyword :: s.rest)) := by
  apply (expect (by simp) _).bind
  intro opening s₁ _
  apply (expression n s₁ (by omega)).bind
  intro condition s₂ _
  apply (expect (by simp) _).bind
  intro closing s₃ _
  apply (hp s₃ (by omega)).bind
  intro thenBranch s₄ _
  apply accepted (by simp)
  · intro hnot
    apply Reads.pure
    rintro _ ⟨flag, ⟨us, hus, hthen⟩, _⟩ ⟨h₃, hclosing⟩ ⟨ts, hts, hcondition⟩ ⟨h₁, hopening⟩
    refine ⟨true, ⟨keyword :: opening :: (ts ++ closing :: us), by simp [h₁, hts, h₃, hus], ?_⟩, ?_⟩
    · exact .ifThen hkeyword hopening hcondition hclosing hthen
    · exact fun _ => hnot
  · intro otherwise s₅ h₅ hotherwise
    have hlength := length_of_cons h₅
    apply (hp s₅ (by omega)).bind
    intro elseBranch s₆ _
    apply Reads.pure
    rintro _ ⟨flag, ⟨vs, hvs, helse⟩, hsettled⟩ ⟨flag', ⟨us, hus, hthen⟩, hsettled'⟩ ⟨h₃, hclosing⟩
      ⟨ts, hts, hcondition⟩ ⟨h₁, hopening⟩
    have hflag : flag' = false := by
      cases flag' with
      | false => rfl
      | true => exact absurd hotherwise (hsettled' rfl _ _ h₅)
    subst hflag
    refine ⟨flag, ⟨keyword :: opening :: (ts ++ closing :: (us ++ otherwise :: vs)), ?_, ?_⟩, hsettled⟩
    · simp [h₁, hts, h₃, hus, h₅, hvs]
    · exact .ifElse hkeyword hopening hcondition hclosing hthen hotherwise helse

theorem whileStatement (hp : ReadsStatement m p) (hn : s.rest.length ≤ n) (hm : s.rest.length ≤ m)
    {keyword : Token} (hkeyword : keyword.kind = .kwWhile) :
    Reads s (Parser.whileStatement n p) (SpansStatement (keyword :: s.rest)) := by
  apply (expect (by simp) _).bind
  intro opening s₁ _
  apply (expression n s₁ (by omega)).bind
  intro condition s₂ _
  apply (expect (by simp) _).bind
  intro closing s₃ _
  apply (hp s₃ (by omega)).bind
  intro body s₄ _
  apply Reads.pure
  rintro _ ⟨flag, ⟨us, hus, hbody⟩, hsettled⟩ ⟨h₃, hclosing⟩ ⟨ts, hts, hcondition⟩ ⟨h₁, hopening⟩
  refine ⟨flag, ⟨keyword :: opening :: (ts ++ closing :: us), by simp [h₁, hts, h₃, hus], ?_⟩, hsettled⟩
  exact .whileLoop hkeyword hopening hcondition hclosing hbody

theorem forInitializer (hn : s.rest.length ≤ n) :
    Reads s (Parser.forInitializer n) (Spans ForInitializer s.rest) := by
  apply accepted (by simp)
  · intro _
    apply accepted (by simp)
    · intro _
      apply (expressionStatement hn).bind
      intro stmt s₁ _
      apply Reads.pure
      rintro _ ⟨ts, e, semicolon, hts, he, hsemicolon, rfl⟩
      exact ⟨ts ++ [semicolon], by simp [hts], .expression he hsemicolon⟩
    · intro keyword s₁ h₁ hkeyword
      have hlength := length_of_cons h₁
      apply (varDeclaration (by omega) hkeyword).bind
      intro stmt s₂ _
      apply Reads.pure
      rintro _ ⟨ts, hts, hstmt⟩
      exact ⟨ts, h₁.trans hts, .var hstmt⟩
  · intro semicolon s₁ h₁ hsemicolon
    exact .pure fun _ => ⟨[semicolon], h₁, .none hsemicolon⟩

theorem forStatement (hp : ReadsStatement m p) (hn : s.rest.length ≤ n) (hm : s.rest.length ≤ m)
    {keyword : Token} (hkeyword : keyword.kind = .kwFor) :
    Reads s (Parser.forStatement n p) (SpansStatement (keyword :: s.rest)) := by
  rw [forStatement_eq]
  apply (expect (by simp) _).bind
  intro opening s₁ _
  apply (forInitializer (by omega)).bind
  intro initializer s₂ _
  apply (expressionUnless (by omega) _).bind
  intro condition s₃ _
  apply (expect (by simp) _).bind
  intro semicolon s₄ _
  apply (expressionUnless (by omega) _).bind
  intro increment s₅ _
  apply (expect (by simp) _).bind
  intro closing s₆ _
  apply (hp s₆ (by omega)).bind
  intro body s₇ _
  apply Reads.pure
  rintro _ ⟨flag, ⟨ws, hws, hbody⟩, hsettled⟩ ⟨h₆, hclosing⟩ ⟨vs, hvs, hincrement⟩ ⟨h₄, hsemicolon⟩
    ⟨us, hus, hcondition⟩ ⟨ts, hts, hinitializer⟩ ⟨h₁, hopening⟩
  refine ⟨flag, ⟨keyword :: opening :: (ts ++ (us ++ semicolon :: (vs ++ closing :: ws))), ?_, ?_⟩, hsettled⟩
  · simp [h₁, hts, hus, h₄, hvs, h₆, hws]
  · exact .forLoop hkeyword hopening hinitializer hcondition hsemicolon hincrement hclosing hbody

theorem statementWith (hp : ReadsStatement m p) (hb : ReadsAs Block m b) (hn : s.rest.length ≤ n)
    (hm : s.rest.length ≤ m + 1) : Reads s (Parser.statementWith n p b) (SpansStatement s.rest) := by
  apply choice rfl
  · intro _
    apply (expressionStatement hn).imp
    rintro _ rest ⟨ts, e, semicolon, hts, he, hsemicolon, rfl⟩
    exact .closed ⟨ts ++ [semicolon], by simp [hts], .expression he hsemicolon⟩
  · intro lead t s₁ h₁ hlead
    have hword := (statementLead?_iff lead).mp hlead
    have hlength := length_of_cons h₁
    rw [h₁]
    cases lead with
    | «for» => exact forStatement hp (by omega) (by omega) hword
    | «if» => exact ifStatement hp (by omega) (by omega) hword
    | «while» => exact whileStatement hp (by omega) (by omega) hword
    | «return» => exact returnStatement (by omega) hword
    | «break» =>
      apply (expect (by simp) _).bind
      intro semicolon s₂ _
      apply Reads.pure
      rintro _ ⟨h₂, hsemicolon⟩
      exact .closed ⟨[t, semicolon], by simp [h₂], .breakLoop hword hsemicolon⟩
    | «continue» =>
      apply (expect (by simp) _).bind
      intro semicolon s₂ _
      apply Reads.pure
      rintro _ ⟨h₂, hsemicolon⟩
      exact .closed ⟨[t, semicolon], by simp [h₂], .continueLoop hword hsemicolon⟩
    | block =>
      apply (hb s₁ (by omega)).bind
      intro body s₂ _
      apply Reads.pure
      rintro _ ⟨ts, hts, hbody⟩
      exact .closed ⟨t :: ts, by simp [hts], .block hword hbody⟩
    | print => exact printStatement (by omega) hword

/-! ### Declarations -/

/-- That a name has been consumed is known only of what has been read, so the bound on the number stands
there. -/
theorem parametersFrom (n count : Nat) : Reads s (Parser.parametersFrom n count) fun names rest =>
    s.rest.length ≤ n → Spans Parameters s.rest names rest ∧ count + names.length ≤ maxList := by
  induction n generalizing s count with
  | zero => exact .pure fun hrest hn => absurd (nil_of_length hn) hrest
  | succ n ih =>
    apply (checkArity _ _).bind
    intro _ s₀ _
    apply (identifier _).bind
    intro name s₁ _
    apply accepted (by simp)
    · intro _
      apply Reads.pure
      rintro _ ⟨t, ht, hname, rfl⟩ ⟨hrest, hcount⟩ _
      exact ⟨⟨[t], by simp [← hrest, ht], .last hname⟩, hcount⟩
    · intro comma s₂ h₂ hcomma
      apply (ih (count + 1)).bind
      intro names s₃ _
      apply Reads.pure
      rintro _ hnext ⟨t, ht, hname, rfl⟩ ⟨hrest, _⟩ hn
      rw [← hrest, ht, h₂] at hn ⊢
      obtain ⟨⟨us, hus, hnames⟩, hmax⟩ := hnext (Nat.le_of_succ_le (Nat.le_of_succ_le_succ hn))
      refine ⟨⟨t :: comma :: us, by simp [hus], .more hname hcomma hnames⟩, ?_⟩
      rw [List.length_cons]
      omega

theorem parameters : Reads s (Parser.parameters n) fun names rest =>
    s.rest.length ≤ n → Spans ParameterList s.rest names rest ∧ names.length ≤ maxList := by
  apply checked
  cases s.front.kind == .rightParen with
  | true => exact .pure fun _ _ => ⟨⟨[], rfl, .none⟩, Nat.zero_le _⟩
  | false =>
    apply (parametersFrom n 0).imp
    intro names rest hread hn
    obtain ⟨⟨ts, hts, hnames⟩, hmax⟩ := hread hn
    exact ⟨⟨ts, hts, .some hnames⟩, by omega⟩

theorem function (hb : ReadsAs Block m b) (hm : s.rest.length ≤ m) (kind : String) :
    Reads s (Parser.function n b kind) fun d rest =>
      s.rest.length ≤ n + 1 → Spans Function s.rest d rest := by
  apply (identifier _).bind
  intro name s₁ _
  apply (expect (by simp) _).bind
  intro opening s₂ _
  apply parameters.bind
  intro names s₃ _
  apply (expect (by simp) _).bind
  intro closing s₄ _
  apply (expect (by simp) _).bind
  intro brace s₅ _
  apply (hb s₅ (by omega)).bind
  intro body s₆ _
  apply freshId.bind
  intro id s₇ _
  apply Reads.pure
  rintro _ h₇ ⟨us, hus, hbody⟩ ⟨h₅, hbrace⟩ ⟨h₄, hclosing⟩ hparameters ⟨h₂, hopening⟩ ⟨t, ht, hname, rfl⟩ hn
  rw [ht, h₂] at hn
  obtain ⟨⟨ts, hts, hnames⟩, hmax⟩ := hparameters (Nat.le_of_succ_le (Nat.le_of_succ_le_succ hn))
  refine ⟨t :: opening :: (ts ++ closing :: brace :: us), ?_, ?_⟩
  · simp [ht, h₂, hts, h₄, h₅, hus, h₇]
  · exact .mk id hname hopening hnames hmax hclosing hbrace hbody

theorem methodsFrom (hb : ReadsAs Block m b) (n : Nat) (hm : s.rest.length ≤ m) :
    Reads s (Parser.methodsFrom b n) fun ds rest =>
      s.rest.length ≤ n → Spans Methods s.rest ds rest := by
  induction n generalizing s with
  | zero => exact .pure fun hrest hn => absurd (nil_of_length hn) hrest
  | succ n ih =>
    apply checked
    apply checked
    split
    · exact .pure fun _ _ => ⟨[], rfl, .nil⟩
    · apply (function hb hm "method").bind
      intro d s₁ _
      apply (ih (by omega)).bind
      intro ds s₂ _
      apply Reads.pure
      rintro _ hmethods hfunction hn
      obtain ⟨ts, hts, hd⟩ := hfunction hn
      have hlength := hd.begins.length_pos
      rw [hts, List.length_append] at hn
      obtain ⟨us, hus, hds⟩ := hmethods (by omega)
      exact ⟨ts ++ us, by simp [hts, hus], .cons hd hds⟩

theorem superclass : Reads s Parser.superclass (Spans Superclass s.rest) := by
  apply accepted (by simp)
  · intro _
    exact .pure fun _ => ⟨[], rfl, .none⟩
  · intro less s₁ h₁ hless
    apply (identifier _).bind
    intro name s₂ _
    apply (reference name).bind
    intro r s₃ _
    apply Reads.pure
    rintro _ ⟨h₃, hr⟩ ⟨t, ht, hname, rfl⟩
    cases r with
    | mk id name =>
      subst hr
      exact ⟨[less, t], by simp [h₁, ht, h₃], .some id hless hname⟩

theorem classDeclaration (hb : ReadsAs Block m b) (hn : s.rest.length ≤ n) (hm : s.rest.length ≤ m)
    {keyword : Token} (hkeyword : keyword.kind = .kwClass) :
    Reads s (Parser.classDeclaration n b) (Spans Declaration (keyword :: s.rest)) := by
  apply (identifier _).bind
  intro name s₁ _
  apply superclass.bind
  intro r s₂ _
  apply (expect (by simp) _).bind
  intro opening s₃ _
  apply (methodsFrom hb n (by omega)).bind
  intro ds s₄ _
  apply (expect (by simp) _).bind
  intro closing s₅ _
  apply Reads.pure
  rintro _ ⟨h₅, hclosing⟩ hmethods ⟨h₃, hopening⟩ ⟨ts, hts, hr⟩ ⟨t, ht, hname, rfl⟩
  obtain ⟨us, hus, hds⟩ := hmethods (by omega)
  refine ⟨keyword :: t :: (ts ++ opening :: (us ++ [closing])), by simp [ht, hts, h₃, hus, h₅], ?_⟩
  exact .classDecl hkeyword hname hr hopening hds hclosing

theorem declarationWith (hp : ReadsStatement m p) (hb : ReadsAs Block m b) (hn : s.rest.length ≤ n)
    (hm : s.rest.length ≤ m + 1) : Reads s (Parser.declarationWith n p b) fun r rest =>
      ∃ stmt, r = some stmt ∧ Spans Declaration s.rest stmt rest := by
  apply recovering
  apply choice rfl
  · intro _
    apply (statementWith hp hb hn hm).imp
    rintro stmt rest ⟨flag, ⟨ts, hts, hstmt⟩, _⟩
    exact ⟨ts, hts, .statement hstmt⟩
  · intro lead t s₁ h₁ hlead
    have hword := (declarationLead?_iff lead).mp hlead
    have hlength := length_of_cons h₁
    rw [h₁]
    cases lead with
    | kwClass => exact classDeclaration hb (by omega) (by omega) hword
    | kwFun =>
      apply (function hb (by omega) "function").bind
      intro d s₂ _
      apply Reads.pure
      rintro _ hfunction
      obtain ⟨ts, hts, hd⟩ := hfunction (by omega)
      exact ⟨t :: ts, by simp [hts], .function hword hd⟩
    | kwVar =>
      apply (varDeclaration (by omega) hword).imp
      rintro stmt rest ⟨ts, hts, hstmt⟩
      exact ⟨ts, hts, .var hstmt⟩

/-- The rule reads declarations, of up to `m` tokens. -/
def ReadsDeclaration (m : Nat) (p : Parser (Option Stmt)) : Prop :=
  ∀ s : State, s.rest.length ≤ m → Reads s p fun r rest =>
    ∃ stmt, r = some stmt ∧ Spans Declaration s.rest stmt rest

theorem declarationsFrom {p : Parser (Option Stmt)} (hp : ReadsDeclaration m p) (n : Nat)
    (hm : s.rest.length ≤ m) : Reads s (Parser.declarationsFrom p n) fun body rest =>
      s.rest.length ≤ n → Spans Declarations s.rest body rest := by
  induction n generalizing s with
  | zero => exact .pure fun hrest hn => absurd (nil_of_length hn) hrest
  | succ n ih =>
    apply checked
    apply checked
    split
    · exact .pure fun _ _ => ⟨[], rfl, .nil⟩
    · apply (hp s hm).bind
      intro stmt s₁ _
      apply (ih (by omega)).bind
      intro body s₂ _
      apply Reads.pure
      rintro _ hbody ⟨stmt, rfl, ts, hts, hstmt⟩ hn
      have hlength := hstmt.begins.length_pos
      rw [hts, List.length_append] at hn
      obtain ⟨us, hus, hdeclarations⟩ := hbody (by omega)
      exact ⟨ts ++ us, by simp [hts, hus], .cons hstmt hdeclarations⟩

theorem programFrom {p : Parser (Option Stmt)} (hp : ReadsDeclaration m p) (n : Nat)
    (hm : s.rest.length ≤ m) : Reads s (Parser.programFrom p n) fun body rest =>
      s.rest.length ≤ n → Spans Declarations s.rest body rest ∧ ∀ t ts, rest = t :: ts → t.kind = .eof := by
  induction n generalizing s with
  | zero => exact .pure fun hrest hn => absurd (nil_of_length hn) hrest
  | succ n ih =>
    apply checked
    split
    case isTrue hend =>
      refine .pure fun _ _ => ⟨⟨[], rfl, .nil⟩, fun t ts hrest => ?_⟩
      rw [← front_of_cons hrest]
      exact beq_iff_eq.mp hend
    · apply (hp s hm).bind
      intro stmt s₁ _
      apply (ih (by omega)).bind
      intro body s₂ _
      apply Reads.pure
      rintro _ hbody ⟨stmt, rfl, ts, hts, hstmt⟩ hn
      have hlength := hstmt.begins.length_pos
      rw [hts, List.length_append] at hn
      obtain ⟨⟨us, hus, hdeclarations⟩, hend⟩ := hbody (by omega)
      exact ⟨⟨ts ++ us, by simp [hts, hus], .cons hstmt hdeclarations⟩, hend⟩

theorem blockWith {p : Parser (Option Stmt)} (hp : ReadsDeclaration m p) :
    ReadsAs Block m (Parser.blockWith m p) := by
  intro s hs
  apply (declarationsFrom hp m hs).bind
  intro body s₁ _
  apply (expect (by simp) _).bind
  intro closing s₂ _
  apply Reads.pure
  rintro _ ⟨h₂, hclosing⟩ hbody
  obtain ⟨ts, hts, hdeclarations⟩ := hbody hs
  exact ⟨ts ++ [closing], by simp [hts, h₂], .mk hdeclarations hclosing⟩

end Statements

theorem statement_block (n : Nat) :
    ReadsStatement n (Parser.statement n) ∧ ReadsAs Block n (Parser.block n) := by
  induction n with
  | zero =>
    constructor
    · exact fun s hs => of_nil (nil_of_length hs) (Ends.get_bind (Ends.throw .refl))
    · exact fun s hs => of_nil (nil_of_length hs) (Ends.get_bind (Ends.throw .refl))
  | succ n ih =>
    constructor
    · exact fun s hs => statementWith ih.1 ih.2 hs hs
    · exact blockWith fun s hs => declarationWith ih.1 ih.2 hs hs

theorem declaration (n : Nat) : ReadsDeclaration n (Parser.declaration n) := by
  obtain ⟨hstatement, hblock⟩ := statement_block n
  exact fun s hs => declarationWith hstatement hblock hs (Nat.le_succ_of_le hs)

end Reads

end Parser

open LoxLang.Grammar

/-- The end of the file is where the first token of its kind is. -/
theorem Grammar.eq_last {front ts us : List Token} {last t : Token} (hfront : ∀ t ∈ front, t.kind ≠ .eof)
    (h : front ++ [last] = ts ++ t :: us) (ht : t.kind = .eof) : us = [] ∧ t = last := by
  rcases List.eq_nil_or_concat us with rfl | ⟨vs, x, rfl⟩
  · exact ⟨rfl, (List.cons.inj (List.append_inj' h rfl).2).1.symm⟩
  · have happend : front ++ [last] = (ts ++ t :: vs) ++ [x] := by simpa using h
    have hmem : t ∈ front := by
      rw [(List.append_inj' happend rfl).1]
      simp
    exact absurd ht (hfront t hmem)

theorem parse_eq (tokens : List Token) (firstId : NodeId) : parse tokens firstId =
    .ofResult ((Parser.programFrom (Parser.declaration tokens.length) tokens.length).run
      ⟨tokens, firstId, #[]⟩) := rfl

/-- What is parsed without a fault is a program, and the statements are one of its trees. -/
theorem Grammar.program_of_parse {front : List Token} {last : Token} (hfront : ∀ t ∈ front, t.kind ≠ .eof)
    (hlast : last.kind = .eof) (firstId : NodeId) (h : (parse (front ++ [last]) firstId).faults = []) :
    Program (front ++ [last]) (parse (front ++ [last]) firstId).statements := by
  have hreads := Parser.Reads.programFrom (s := ⟨front ++ [last], firstId, #[]⟩)
    (Parser.Reads.declaration (front ++ [last]).length) (front ++ [last]).length (Nat.le_refl _)
  unfold Parser.Reads Ends at hreads
  rw [parse_eq] at h ⊢
  cases hrun : (Parser.programFrom (Parser.declaration (front ++ [last]).length)
      (front ++ [last]).length).run ⟨front ++ [last], firstId, #[]⟩ with
  | error fault s' =>
    rw [hrun] at h
    exact absurd h (by simp [Parse.ofResult])
  | ok body s' =>
    rw [hrun] at h hreads
    obtain ⟨hadvances, hread⟩ := hreads
    have hclosed := hadvances.endOfFile last hlast (List.suffix_append front [last])
    have hclean : s'.faults = #[] := Array.toList_inj.mp h
    have hrest : s'.rest ≠ [] := by
      intro hnil
      rw [hnil] at hclosed
      simp at hclosed
    obtain ⟨⟨ts, hts, hbody⟩, hend⟩ := hread hclean hrest (Nat.le_refl _)
    obtain ⟨t, us, hcons⟩ := List.exists_cons_of_ne_nil hrest
    rw [hcons] at hts
    obtain ⟨rfl, rfl⟩ := eq_last hfront hts (hend t us hcons)
    have hprogram : Program (ts ++ [t]) body := .mk hbody hlast
    rwa [← hts] at hprogram

end LoxLang
