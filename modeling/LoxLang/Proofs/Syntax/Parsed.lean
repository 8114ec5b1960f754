import LoxLang.Proofs.Outcome
import LoxLang.Proofs.Syntax.WellFormed
import LoxLang.Syntax.Parser

/-!
What the rules of the grammar yield. A rule moves forwards through the tokens and never passes the end of
the file; the identities it gives out are new; and what it builds is well formed, provided that the tokens
of kind identifier spell names a variable can have. `parse_yields` sums this up for whole programs.
-/

namespace LoxLang

/-- The identifiers among the tokens are names of variables. -/
def Words (ts : List Token) : Prop :=
  ∀ t ∈ ts, t.kind = .identifier → Plain t.lexeme

namespace Parser

/-- How a rule may change the state. -/
structure Advances (s s' : State) : Prop where
  rest : s'.rest <:+ s.rest
  nextId : s.nextId ≤ s'.nextId
  faults : s.faults.toList <+: s'.faults.toList
  endOfFile : ∀ t : Token, t.kind = .eof → [t] <:+ s.rest → [t] <:+ s'.rest

namespace Advances

variable {s s' s'' : State}

theorem refl : Advances s s :=
  ⟨List.suffix_rfl, Nat.le_refl _, List.prefix_rfl, fun _ _ h => h⟩

theorem trans (h : Advances s s') (h' : Advances s' s'') : Advances s s'' :=
  ⟨h'.rest.trans h.rest, Nat.le_trans h.nextId h'.nextId, h.faults.trans h'.faults,
    fun t ht hlast => h'.endOfFile t ht (h.endOfFile t ht hlast)⟩

/-- Consuming a token that is not the end of the file. -/
theorem consume {t : Token} {rest : List Token} (hrest : s.rest = t :: rest) (ht : t.kind ≠ .eof) :
    Advances s { s with rest := rest } := by
  refine ⟨hrest ▸ List.suffix_cons t rest, Nat.le_refl _, List.prefix_rfl, fun last hlast hsuffix => ?_⟩
  rw [hrest] at hsuffix
  rcases List.suffix_cons_iff.mp hsuffix with h | h
  · obtain ⟨rfl, _⟩ := List.cons.inj h
    exact absurd hlast ht
  · exact h

theorem words (h : Advances s s') (hwords : Words s.rest) : Words s'.rest :=
  fun t ht => hwords t (h.rest.subset ht)

end Advances

end Parser

/-- The diagnostic tells a fault of grammar, and names no file. -/
def Diagnostic.OfGrammar (d : Diagnostic) : Prop :=
  (∃ fault, d.fault = .grammar fault) ∧ d.file = none

namespace Parser

/-- How a rule may change the state, and that it has reported nothing but faults of grammar. -/
structure Proceeds (s s' : State) : Prop extends Advances s s' where
  grammar : ∀ d ∈ s'.faults.toList, d ∈ s.faults.toList ∨ d.OfGrammar

namespace Proceeds

variable {s s' s'' : State}

theorem refl : Proceeds s s :=
  ⟨.refl, fun _ hd => .inl hd⟩

theorem trans (h : Proceeds s s') (h' : Proceeds s' s'') : Proceeds s s'' :=
  ⟨h.toAdvances.trans h'.toAdvances, fun d hd => (h'.grammar d hd).elim (h.grammar d) .inr⟩

theorem consume {t : Token} {rest : List Token} (hrest : s.rest = t :: rest) (ht : t.kind ≠ .eof) :
    Proceeds s { s with rest := rest } :=
  ⟨.consume hrest ht, fun _ hd => .inl hd⟩

end Proceeds

/-- The rule advances from the state, and what it yields together with the next free identity is as
`good` says. If it fails, it fails with a fault of grammar. -/
def YieldsFrom {α : Type} (s : State) (p : Parser α) (good : α → Nat → Prop) : Prop :=
  Words s.rest →
    Ends p s (fun a s' => Proceeds s s' ∧ good a s'.nextId) fun d s' => Proceeds s s' ∧ d.OfGrammar

namespace YieldsFrom

variable {α β : Type} {s : State} {p : Parser α} {f : α → Parser β} {good : α → Nat → Prop}
  {good' : β → Nat → Prop}

theorem pure {a : α} (h : good a s.nextId) : YieldsFrom s (Pure.pure a) good :=
  fun _ => Ends.pure ⟨.refl, h⟩

theorem bind (hp : YieldsFrom s p good)
    (hf : ∀ a s', @LE.le Nat _ s.nextId s'.nextId → good a s'.nextId → YieldsFrom s' (f a) good') :
    YieldsFrom s (p >>= f) good' := by
  intro hwords
  refine Ends.bind (hp hwords) ?_
  rintro a s' ⟨hproceeds, hgood⟩
  refine (hf a s' hproceeds.nextId hgood (hproceeds.words hwords)).imp ?_ ?_
  · rintro b s'' ⟨h, hgood'⟩
    exact ⟨hproceeds.trans h, hgood'⟩
  · rintro d s'' ⟨h, hgrammar⟩
    exact ⟨hproceeds.trans h, hgrammar⟩

theorem imp {good₂ : α → Nat → Prop} (hp : YieldsFrom s p good)
    (h : ∀ a next, @LE.le Nat _ s.nextId next → good a next → good₂ a next) : YieldsFrom s p good₂ :=
  fun hwords => (hp hwords).imp (fun a s' ha => ⟨ha.1, h a s'.nextId ha.1.nextId ha.2⟩) fun _ _ he => he

end YieldsFrom

/-! ### Choices -/

section Choice

variable {γ : Type} {choose : TokenKind → Option γ}

theorem run_acceptWith?_none {s : State} (h : ∀ u us, s.rest = u :: us → choose u.kind = none) :
    (acceptWith? choose).run s = .ok none s := by
  unfold acceptWith?
  rw [EStateM.run_bind]
  simp only [EStateM.run_get]
  cases hrest : s.rest with
  | nil => rfl
  | cons u us => simp only [h u us hrest, EStateM.run_pure]

theorem run_acceptWith?_some {s : State} {u : Token} {us : List Token} {a : γ}
    (hrest : s.rest = u :: us) (h : choose u.kind = some a) :
    (acceptWith? choose).run s = .ok (some (a, u)) { s with rest := us } := by
  unfold acceptWith?
  rw [EStateM.run_bind]
  simp only [EStateM.run_get, hrest, h]
  rfl

theorem choose_eq {kind k : TokenKind} {u : Unit} (h : (if k = kind then some () else none) = some u) :
    k = kind :=
  (Option.ite_none_right_eq_some.mp h).1

end Choice

theorem nil_of_length {s : State} (h : s.rest.length ≤ 0) : s.rest = [] :=
  List.eq_nil_of_length_eq_zero (Nat.le_zero.mp h)

/-! ### Tokens -/

section Tokens

variable {s : State}

theorem peek_yields : YieldsFrom s peek fun _ next => next = s.nextId :=
  fun _ => ⟨.refl, rfl⟩

theorem failHere_yields {α : Type} (fault : GrammarFault) (good : α → Nat → Prop) :
    YieldsFrom s (failHere fault) good :=
  peek_yields.bind fun _ _ _ _ _ => Ends.throw ⟨.refl, ⟨fault, rfl⟩, rfl⟩

theorem reported_proceeds {d : Diagnostic} (hd : d.OfGrammar) :
    Proceeds s { s with faults := s.faults.push d } := by
  refine ⟨⟨List.suffix_rfl, Nat.le_refl _, by simp, fun _ _ h => h⟩, fun e he => ?_⟩
  rcases Array.mem_push.mp (Array.mem_toList_iff.mp he) with h | rfl
  · exact .inl (Array.mem_toList_iff.mpr h)
  · exact .inr hd

theorem report_yields (position : Position) (fault : GrammarFault) :
    YieldsFrom s (report position fault) fun _ next => next = s.nextId :=
  fun _ => Ends.of_modify
    ⟨reported_proceeds ⟨⟨fault, rfl⟩, rfl⟩, rfl⟩

theorem checkArity_yields (count : Nat) (fault : GrammarFault) :
    YieldsFrom s (checkArity count fault) fun _ next => next = s.nextId := by
  unfold checkArity
  split
  · refine peek_yields.bind fun t s₁ _ h₁ => ?_
    exact (report_yields _ _).imp fun _ _ _ h => h.trans h₁
  · exact .pure rfl

theorem freshId_yields : YieldsFrom s freshId fun (id : Nat) next => id = s.nextId ∧ next = s.nextId + 1 :=
  fun _ => ⟨⟨⟨List.suffix_rfl, Nat.le_succ _, List.prefix_rfl, fun _ _ h => h⟩, fun _ hd => .inl hd⟩, rfl,
    rfl⟩

theorem check_yields (kind : TokenKind) :
    YieldsFrom s (check kind) fun _ next => next = s.nextId :=
  peek_yields.bind fun _ _ _ hnext => .pure hnext

theorem acceptWith?_yields {α : Type} {choose : TokenKind → Option α} (heof : choose .eof = none) :
    YieldsFrom s (acceptWith? choose) fun r next => next = s.nextId ∧ ∀ a t, r = some (a, t) →
      choose t.kind = some a ∧ (t.kind = .identifier → Plain t.lexeme) := by
  intro hwords
  refine Ends.get_bind ?_
  cases hrest : s.rest with
  | nil => exact ⟨.refl, rfl, by simp⟩
  | cons t rest =>
    cases hchoose : choose t.kind with
    | none => simp only [hchoose]; exact ⟨.refl, rfl, by simp⟩
    | some a =>
      simp only [hchoose]
      refine ⟨.consume hrest fun hkind => ?_, rfl, ?_⟩
      · rw [hkind, heof] at hchoose
        cases hchoose
      · intro a' t' h
        cases h
        exact ⟨hchoose, hwords t (hrest ▸ List.mem_cons_self)⟩

theorem accept_yields {kind : TokenKind} (heof : kind ≠ .eof) :
    YieldsFrom s (accept kind) fun _ next => next = s.nextId :=
  (acceptWith?_yields (by simp [heof.symm])).bind fun _ _ _ h => .pure h.1

theorem expect_yields {kind : TokenKind} (heof : kind ≠ .eof) (what : String) :
    YieldsFrom s (expect kind what) fun t next =>
      next = s.nextId ∧ (kind = .identifier → Plain t.lexeme) := by
  refine (acceptWith?_yields (by simp [heof.symm])).bind fun r s' _ h => ?_
  cases r with
  | none => exact failHere_yields _ _
  | some found =>
    obtain ⟨hchoose, hword⟩ := h.2 _ _ rfl
    refine .pure ⟨h.1, fun hkind => hword ?_⟩
    simpa [hkind] using hchoose

theorem identifier_yields (what : String) :
    YieldsFrom s (identifier what) fun name next => next = s.nextId ∧ Plain name.name :=
  (expect_yields (by decide) what).bind fun _ _ _ h => .pure ⟨h.1, h.2 rfl⟩

theorem reference_yields (name : Ident) :
    YieldsFrom s (reference name) fun r next =>
      r = ⟨s.nextId, name⟩ ∧ next = s.nextId + 1 :=
  freshId_yields.bind fun id _ _ h => .pure ⟨by rw [h.1], h.2⟩

end Tokens

end Parser

/-- Well formed, with identities from a range of their own. -/
def Expr.Parsed (first next : Nat) (e : Expr) : Prop :=
  e.WellFormed ∧ GivenOut first next e.nodes

def Expr.AllParsed (first next : Nat) (es : List Expr) : Prop :=
  Expr.AllWellFormed es ∧ GivenOut first next (Expr.allNodes es)

namespace Parser

/-! ### Expressions -/

/-- The rule yields an expression from any state. -/
def YieldsExpr (p : Parser Expr) : Prop :=
  ∀ s, YieldsFrom s p fun e next => e.Parsed s.nextId next

/-- Operators whose expressions consist of their operands. -/
def Joins (choose : TokenKind → Option (Expr → Position → Expr → Expr)) : Prop :=
  choose .eof = none ∧ ∀ kind join, choose kind = some join → ∀ first middle next l position r,
    first ≤ middle → middle ≤ next → Expr.Parsed first middle l → Expr.Parsed middle next r →
      (join l position r).Parsed first next

section Expressions

variable {s : State} {expression operand : Parser Expr}

theorem chainFrom_yields {choose : TokenKind → Option (Expr → Position → Expr → Expr)}
    (hjoins : Joins choose) (hoperand : YieldsExpr operand) (n : Nat) {left : Expr} {first : Nat}
    (hfirst : first ≤ s.nextId) (hleft : left.Parsed first s.nextId) :
    YieldsFrom s (chainFrom choose operand n left) fun e next => e.Parsed first next := by
  induction n generalizing s left with
  | zero => exact .pure hleft
  | succ n ih =>
    refine (acceptWith?_yields hjoins.1).bind fun r s₁ _ h => ?_
    cases r with
    | none => exact .pure (h.1 ▸ hleft)
    | some found =>
      obtain ⟨join, t⟩ := found
      refine (hoperand s₁).bind fun right s₂ hle hright => ?_
      have hjoin := hjoins.2 _ _ (h.2 _ _ rfl).1 first s₁.nextId s₂.nextId left t.position right
        (by omega) hle (h.1 ▸ hleft) hright
      exact ih (by omega) hjoin

theorem chain_yields {choose : TokenKind → Option (Expr → Position → Expr → Expr)}
    (hjoins : Joins choose) (hoperand : YieldsExpr operand) (n : Nat) :
    YieldsExpr (chain n choose operand) := fun s =>
  (hoperand s).bind fun _ _ hle hleft => chainFrom_yields hjoins hoperand n hle hleft

theorem unary_yields (hoperand : YieldsExpr operand) (n : Nat) : YieldsExpr (unary operand n) := by
  induction n with
  | zero => exact hoperand
  | succ n ih =>
    intro s
    refine (acceptWith?_yields rfl).bind fun r s₁ _ h => ?_
    cases r with
    | none => exact h.1 ▸ hoperand s₁
    | some found =>
      refine (ih s₁).bind fun e s₂ _ he => ?_
      exact .pure (h.1 ▸ he)

theorem argumentsFrom_yields (hexpression : YieldsExpr expression) (n count : Nat) :
    YieldsFrom s (argumentsFrom expression n count) fun es next => Expr.AllParsed s.nextId next es := by
  induction n generalizing s count with
  | zero => exact .pure ⟨trivial, .nil⟩
  | succ n ih =>
    refine (checkArity_yields _ _).bind fun _ s₀ _ h₀ => ?_
    refine (hexpression s₀).bind fun e s₁ hle he => ?_
    rw [h₀] at hle he
    refine (accept_yields (by decide)).bind fun comma s₂ _ h => ?_
    cases comma with
    | true =>
      refine (ih (count + 1)).bind fun es s₃ hle' hes => .pure ⟨⟨he.1, hes.1⟩, ?_⟩
      exact he.2.append (h ▸ hes.2) hle (by omega)
    | false =>
      refine .pure ⟨⟨he.1, trivial⟩, ?_⟩
      simpa [Expr.allNodes, h] using he.2

theorem arguments_yields (hexpression : YieldsExpr expression) (n : Nat) :
    YieldsFrom s (arguments n expression) fun es next => Expr.AllParsed s.nextId next es := by
  refine (check_yields _).bind fun closed s₁ _ h => ?_
  cases closed with
  | true => exact .pure ⟨trivial, .nil⟩
  | false => exact h ▸ argumentsFrom_yields hexpression n 0

theorem finishCall_yields (hexpression : YieldsExpr expression) (n : Nat) {callee : Expr}
    {first : Nat} (hfirst : first ≤ s.nextId) (hcallee : callee.Parsed first s.nextId) :
    YieldsFrom s (finishCall n expression callee) fun e next => e.Parsed first next := by
  refine (arguments_yields hexpression n).bind fun es s₁ hle hes => ?_
  refine (expect_yields (by decide) _).bind fun paren s₂ _ h => .pure ⟨⟨hcallee.1, hes.1⟩, ?_⟩
  rw [h.1]
  exact hcallee.2.append hes.2 hfirst hle

theorem postfixes_yields (hexpression : YieldsExpr expression) (n : Nat) {e : Expr} {first : Nat}
    (hfirst : first ≤ s.nextId) (he : e.Parsed first s.nextId) :
    YieldsFrom s (postfixes expression n e) fun e next => e.Parsed first next := by
  induction n generalizing s e with
  | zero => exact .pure he
  | succ n ih =>
    refine (accept_yields (by decide)).bind fun paren s₁ _ h₁ => ?_
    cases paren with
    | true =>
      refine (finishCall_yields hexpression n (by omega) (h₁ ▸ he)).bind fun e' s₂ hle he' => ?_
      exact ih (by omega) he'
    | false =>
      refine (accept_yields (by decide)).bind fun dot s₂ _ h₂ => ?_
      have hid : @Eq Nat s₂.nextId s.nextId := h₂.trans h₁
      cases dot with
      | true =>
        refine (identifier_yields _).bind fun name s₃ _ h₃ => ?_
        have hid₃ : @Eq Nat s₃.nextId s.nextId := h₃.1.trans hid
        exact ih (by omega) (hid₃ ▸ he)
      | false => exact .pure (hid ▸ he)

theorem lead?_name {kind : TokenKind} (h : lead? kind = some .name) : kind = .identifier := by
  cases kind <;> first | rfl | cases h

theorem primary_yields (hexpression : YieldsExpr expression) : YieldsExpr (primary expression) := by
  intro s
  refine (acceptWith?_yields rfl).bind fun r s₁ _ h => ?_
  cases r with
  | none => exact failHere_yields _ _
  | some found =>
    obtain ⟨lead, t⟩ := found
    obtain ⟨hlead, hword⟩ := h.2 _ _ rfl
    cases lead with
    | constant value => exact .pure ⟨trivial, .nil⟩
    | literal => exact .pure ⟨trivial, .nil⟩
    | super =>
      refine (expect_yields (by decide) _).bind fun _ s₂ _ h₂ => ?_
      refine (identifier_yields _).bind fun method s₃ _ h₃ => ?_
      refine freshId_yields.bind fun id s₄ _ h₄ => .pure ⟨trivial, ?_⟩
      exact .singleton (by omega) (by omega)
    | this =>
      refine freshId_yields.bind fun id s₂ _ h₂ => .pure ⟨trivial, ?_⟩
      exact .singleton (by omega) (by omega)
    | name =>
      refine (reference_yields _).bind fun r s₂ _ h₂ => ?_
      obtain ⟨rfl, hid⟩ := h₂
      refine .pure ⟨hword (lead?_name hlead), ?_⟩
      exact .singleton (Nat.le_of_eq h.1.symm) (Nat.lt_of_lt_of_eq (Nat.lt_succ_self _) hid.symm)
    | paren =>
      refine (hexpression s₁).bind fun inner s₂ _ hinner => ?_
      refine (expect_yields (by decide) _).bind fun _ s₃ _ h₃ => ?_
      exact .pure (by rw [h₃.1, ← h.1]; exact hinner)

theorem operand_yields (hexpression : YieldsExpr expression) (n : Nat) :
    YieldsExpr (Parser.operand n expression) :=
  unary_yields (fun s => (primary_yields hexpression s).bind fun _ _ hle he =>
    postfixes_yields hexpression n hle he) n

theorem binary_joins {tier : TokenKind → Option BinaryOp} (heof : tier .eof = none) :
    Joins fun k => (tier k).map fun op l p r => .binary l op p r := by
  refine ⟨by simp [heof], ?_⟩
  rintro kind join hjoin first middle next l position r hfirst hnext hl hr
  obtain ⟨op, _, rfl⟩ := Option.map_eq_some_iff.mp hjoin
  exact ⟨⟨hl.1, hr.1⟩, hl.2.append hr.2 hfirst hnext⟩

theorem logical_joins {kind : TokenKind} (op : LogicalOp) (heof : kind ≠ .eof) :
    Joins fun k => if k = kind then some fun l _ r => .logical l op r else none := by
  refine ⟨by simp [heof.symm], ?_⟩
  intro k join hjoin first middle next l position r hfirst hnext hl hr
  obtain ⟨_, hjoin⟩ := Option.ite_none_right_eq_some.mp hjoin
  cases hjoin
  exact ⟨⟨hl.1, hr.1⟩, hl.2.append hr.2 hfirst hnext⟩

theorem binary_yields (hexpression : YieldsExpr expression) (n : Nat) :
    YieldsExpr (binary n expression) := by
  have hall : ∀ tiers : List (TokenKind → Option BinaryOp), (∀ tier ∈ tiers, tier .eof = none) →
      YieldsExpr (tiers.foldr (fun tier operand =>
        chain n (fun k => (tier k).map fun op l p r => .binary l op p r) operand)
        (Parser.operand n expression)) := by
    intro tiers htiers
    induction tiers with
    | nil => exact operand_yields hexpression n
    | cons tier rest ih =>
      exact chain_yields (binary_joins (htiers tier List.mem_cons_self))
        (ih fun tier h => htiers tier (List.mem_cons_of_mem _ h)) n
  exact hall binaryTiers (by simp [binaryTiers])

theorem logical_yields (hexpression : YieldsExpr expression) (n : Nat) :
    YieldsExpr (logical n expression) :=
  chain_yields (logical_joins .or (by decide))
    (chain_yields (logical_joins .and (by decide)) (binary_yields hexpression n) n) n

end Expressions

theorem expression_yields (n : Nat) : YieldsExpr (expression n) := by
  induction n with
  | zero => exact fun s => failHere_yields _ _
  | succ n ih =>
    intro s
    refine (logical_yields ih (n + 1) s).bind fun target s₁ _ htarget => ?_
    refine (acceptWith?_yields (by simp)).bind fun r s₂ _ h₂ => ?_
    cases r with
    | none => exact .pure (h₂.1 ▸ htarget)
    | some equals =>
      refine (ih s₂).bind fun value s₃ _ hvalue => ?_
      rw [h₂.1] at hvalue
      have hother : ∀ e : Expr, e.Parsed s.nextId s₁.nextId → YieldsFrom s₃ (do
          report equals.2.position .invalidAssignmentTarget
          return e) fun e next => e.Parsed s.nextId next := by
        intro e he
        refine (report_yields _ _).bind fun _ s₄ _ h₄ => .pure ⟨he.1, ?_⟩
        exact he.2.widen (Nat.le_refl _) (by omega)
      cases target with
      | read r =>
        refine (reference_yields _).bind fun r' s₄ _ h₄ => ?_
        obtain ⟨rfl, hid⟩ := h₄
        refine .pure ⟨⟨htarget.1, hvalue.1⟩, ?_⟩
        have hnew : GivenOut s₃.nextId s₄.nextId [s₃.nextId] :=
          .singleton (Nat.le_refl _) (by omega)
        exact (hvalue.2.widen (by omega) (Nat.le_refl _)).append hnew (by omega) (by omega)
      | get object property =>
        refine .pure ⟨⟨htarget.1, hvalue.1⟩, ?_⟩
        exact htarget.2.append_before hvalue.2 (by omega) (by omega)
      | _ => exact hother _ htarget

end Parser

def Stmt.Parsed (first next : Nat) (s : Stmt) : Prop :=
  s.WellFormed ∧ GivenOut first next s.nodes

def Stmt.AllParsed (first next : Nat) (body : List Stmt) : Prop :=
  Stmt.AllWellFormed body ∧ GivenOut first next (Stmt.allNodes body)

def FunctionDecl.Parsed (first next : Nat) (d : FunctionDecl) : Prop :=
  d.WellFormed ∧ GivenOut first next d.nodes

def FunctionDecl.AllParsed (first next : Nat) (ds : List FunctionDecl) : Prop :=
  FunctionDecl.AllWellFormed ds ∧ GivenOut first next (FunctionDecl.allNodes ds)

namespace Parser

/-! ### Statements -/

/-- The rule yields a statement that declares nothing, from any state. -/
def YieldsStmt (p : Parser Stmt) : Prop :=
  ∀ s, YieldsFrom s p fun stmt next => stmt.declared? = none ∧ stmt.Parsed s.nextId next

/-- The rule yields the body of a block, from any state. -/
def YieldsBody (p : Parser (List Stmt)) : Prop :=
  ∀ s, YieldsFrom s p fun body next => Stmt.AllParsed s.nextId next body

section Statements

variable {s : State} {statement : Parser Stmt} {block : Parser (List Stmt)}

theorem expressionUnless_yields (n : Nat) (kind : TokenKind) :
    YieldsFrom s (expressionUnless n kind) fun r next =>
      ∀ e ∈ r, e.Parsed s.nextId next := by
  refine (check_yields kind).bind fun here s₁ _ h => ?_
  cases here with
  | true => exact .pure (by simp)
  | false =>
    refine (expression_yields n s₁).bind fun e s₂ _ he => .pure ?_
    rw [h] at he
    simpa using he

theorem initializer_yields (n : Nat) :
    YieldsFrom s (initializer n) fun r next => ∀ e ∈ r, e.Parsed s.nextId next := by
  refine (accept_yields (by decide)).bind fun here s₁ _ h => ?_
  cases here with
  | true =>
    refine (expression_yields n s₁).bind fun e s₂ _ he => .pure ?_
    rw [h] at he
    simpa using he
  | false => exact .pure (by simp)

theorem varDeclaration_yields (n : Nat) :
    YieldsFrom s (varDeclaration n) fun stmt next => stmt.Parsed s.nextId next := by
  refine (identifier_yields _).bind fun name s₁ _ h₁ => ?_
  refine (initializer_yields n).bind fun r s₂ _ hr => ?_
  refine (expect_yields (by decide) _).bind fun _ s₃ _ h₃ => ?_
  cases r with
  | none => exact .pure ⟨h₁.2, .nil⟩
  | some e =>
    have he := hr e rfl
    rw [h₁.1, ← h₃.1] at he
    exact .pure ⟨⟨h₁.2, he.1⟩, he.2⟩

theorem expressionStatement_yields (n : Nat) : YieldsStmt (expressionStatement n) := fun s =>
  (expression_yields n s).bind fun _ _ _ he =>
    (expect_yields (by decide) _).bind fun _ _ _ h => .pure ⟨rfl, he.1, h.1 ▸ he.2⟩

theorem printStatement_yields (n : Nat) : YieldsStmt (printStatement n) := fun s =>
  (expression_yields n s).bind fun _ _ _ he =>
    (expect_yields (by decide) _).bind fun _ _ _ h => .pure ⟨rfl, he.1, h.1 ▸ he.2⟩

theorem returnStatement_yields (n : Nat) (keyword : Token) : YieldsStmt (returnStatement n keyword) := by
  intro s
  refine (expressionUnless_yields n _).bind fun r s₁ _ hr => ?_
  refine (expect_yields (by decide) _).bind fun _ s₂ _ h₂ => ?_
  cases r with
  | none => exact .pure ⟨rfl, trivial, .nil⟩
  | some e =>
    have he := hr e rfl
    exact .pure ⟨rfl, he.1, h₂.1 ▸ he.2⟩

theorem ifStatement_yields (n : Nat) (hstatement : YieldsStmt statement) :
    YieldsStmt (ifStatement n statement) := by
  intro s
  refine (expect_yields (by decide) _).bind fun _ s₁ _ h₁ => ?_
  refine (expression_yields n s₁).bind fun condition s₂ hle₂ hc => ?_
  refine (expect_yields (by decide) _).bind fun _ s₃ _ h₃ => ?_
  refine (hstatement s₃).bind fun thenBranch s₄ hle₄ ht => ?_
  rw [h₁.1] at hc hle₂
  rw [h₃.1] at ht hle₄
  refine (accept_yields (by decide)).bind fun more s₅ _ h₅ => ?_
  cases more with
  | true =>
    refine (hstatement s₅).bind fun elseBranch s₆ hle₆ he => ?_
    rw [h₅] at he hle₆
    refine .pure ⟨rfl, ⟨hc.1, ⟨ht.1, ht.2.1⟩, he.1, he.2.1⟩, ?_⟩
    exact hc.2.append (ht.2.2.append he.2.2 hle₄ hle₆) hle₂ (by omega)
  | false =>
    refine .pure ⟨rfl, ⟨hc.1, ht.1, ht.2.1⟩, ?_⟩
    rw [h₅]
    exact hc.2.append ht.2.2 hle₂ hle₄

theorem whileStatement_yields (n : Nat) (hstatement : YieldsStmt statement) :
    YieldsStmt (whileStatement n statement) := by
  intro s
  refine (expect_yields (by decide) _).bind fun _ s₁ _ h₁ => ?_
  refine (expression_yields n s₁).bind fun condition s₂ hle₂ hc => ?_
  refine (expect_yields (by decide) _).bind fun _ s₃ _ h₃ => ?_
  refine (hstatement s₃).bind fun body s₄ hle₄ hb => ?_
  rw [h₁.1] at hc hle₂
  rw [h₃.1] at hb hle₄
  exact .pure ⟨rfl, ⟨hc.1, hb.1, hb.2.1⟩, hc.2.append hb.2.2 hle₂ hle₄⟩

/-- A loop out of its parts, as a `for` statement puts it together. -/
theorem loop_parsed {condition increment : Option Expr} {body : Stmt} {a b c d : Nat}
    (hc : ∀ e ∈ condition, e.Parsed a b) (hi : ∀ e ∈ increment, e.Parsed b c)
    (hb : body.declared? = none ∧ body.Parsed c d) (hab : a ≤ b) (hbc : b ≤ c) (hcd : c ≤ d) :
    (Stmt.loop (condition.getD (.constant (.bool true))) body increment).Parsed a d := by
  have hcondition : (condition.getD (.constant (.bool true))).Parsed a b := by
    cases condition with
    | none => exact ⟨trivial, .nil⟩
    | some e => exact hc e rfl
  cases increment with
  | none =>
    refine ⟨⟨hcondition.1, hb.1, hb.2.1⟩, ?_⟩
    exact hcondition.2.append (hb.2.2.widen hbc (Nat.le_refl _)) hab (by omega)
  | some e =>
    have he := hi e rfl
    refine ⟨⟨hcondition.1, ⟨hb.1, hb.2.1⟩, he.1⟩, ?_⟩
    exact hcondition.2.append (he.2.append_before hb.2.2 hbc hcd) hab (by omega)

theorem forInitializer_yields (n : Nat) :
    YieldsFrom s (forInitializer n) fun r next => ∀ stmt ∈ r, stmt.Parsed s.nextId next := by
  refine (accept_yields (by decide)).bind fun empty s₁ _ h₁ => ?_
  cases empty with
  | true => exact .pure (by simp)
  | false =>
    refine (accept_yields (by decide)).bind fun var s₂ _ h₂ => ?_
    have hid : @Eq Nat s₂.nextId s.nextId := h₂.trans h₁
    cases var with
    | true =>
      refine (varDeclaration_yields n).bind fun stmt s₃ _ hstmt => .pure ?_
      rw [hid] at hstmt
      simpa using hstmt
    | false =>
      refine (expressionStatement_yields n s₂).bind fun stmt s₃ _ hstmt => .pure ?_
      rw [hid] at hstmt
      simpa using hstmt.2

theorem forStatement_yields (n : Nat) (hstatement : YieldsStmt statement) :
    YieldsStmt (forStatement n statement) := by
  intro s
  refine (expect_yields (by decide) _).bind fun _ s₁ _ h₁ => ?_
  refine (forInitializer_yields n).bind fun initializer s₃ hle₃ hinitializer => ?_
  refine (expressionUnless_yields n _).bind fun condition s₄ hle₄ hc => ?_
  refine (expect_yields (by decide) _).bind fun _ s₅ _ h₅ => ?_
  refine (expressionUnless_yields n _).bind fun increment s₆ hle₆ hi => ?_
  refine (expect_yields (by decide) _).bind fun _ s₇ _ h₇ => ?_
  refine (hstatement s₇).bind fun body s₈ hle₈ hb => ?_
  rw [h₁.1] at hle₃ hinitializer
  rw [h₅.1] at hi hle₆
  rw [h₇.1] at hb hle₈
  have hloop := loop_parsed hc hi hb hle₄ hle₆ hle₈
  cases initializer with
  | none => exact .pure ⟨rfl, hloop.1, hloop.2.widen hle₃ (Nat.le_refl _)⟩
  | some stmt =>
    have hstmt := hinitializer stmt rfl
    refine .pure ⟨rfl, ⟨hstmt.1, hloop.1, trivial⟩, ?_⟩
    have hbody : GivenOut s₃.nextId s₈.nextId (Stmt.allNodes
        [.loop (condition.getD (.constant (.bool true))) body increment]) := by
      simpa [Stmt.allNodes] using hloop.2
    exact hstmt.2.append hbody hle₃ (by omega)

theorem statementWith_yields (n : Nat) (hstatement : YieldsStmt statement)
    (hblock : YieldsBody block) : YieldsStmt (statementWith n statement block) := by
  intro s
  refine (acceptWith?_yields rfl).bind fun r s₁ _ h => ?_
  rw [← h.1]
  cases r with
  | none => exact expressionStatement_yields n s₁
  | some found =>
    obtain ⟨lead, t⟩ := found
    cases lead with
    | «for» => exact forStatement_yields n hstatement s₁
    | «if» => exact ifStatement_yields n hstatement s₁
    | «while» => exact whileStatement_yields n hstatement s₁
    | «return» => exact returnStatement_yields n t s₁
    | «break» =>
      exact (expect_yields (by decide) _).bind fun _ _ _ _ => .pure ⟨rfl, trivial, .nil⟩
    | «continue» =>
      exact (expect_yields (by decide) _).bind fun _ _ _ _ => .pure ⟨rfl, trivial, .nil⟩
    | block => exact (hblock s₁).bind fun body _ _ hbody => .pure ⟨rfl, hbody⟩
    | print => exact printStatement_yields n s₁

/-! ### Declarations -/

theorem parametersFrom_yields (n count : Nat) :
    YieldsFrom s (parametersFrom n count) fun names next =>
      next = s.nextId ∧ ∀ p ∈ names, Plain p.name := by
  induction n generalizing s count with
  | zero => exact .pure ⟨rfl, by simp⟩
  | succ n ih =>
    refine (checkArity_yields _ _).bind fun _ s₀ _ h₀ => ?_
    refine (identifier_yields _).bind fun p s₁ _ h₁ => ?_
    refine (accept_yields (by decide)).bind fun comma s₂ _ h₂ => ?_
    have hid : @Eq Nat s₂.nextId s.nextId := h₂.trans (h₁.1.trans h₀)
    cases comma with
    | true =>
      refine (ih (count + 1)).bind fun names s₃ _ h₃ => .pure ⟨h₃.1.trans hid, ?_⟩
      simpa using ⟨h₁.2, h₃.2⟩
    | false => exact .pure ⟨hid, by simpa using h₁.2⟩

theorem parameters_yields (n : Nat) :
    YieldsFrom s (parameters n) fun names next =>
      next = s.nextId ∧ ∀ p ∈ names, Plain p.name := by
  refine (check_yields _).bind fun closed s₁ _ h => ?_
  cases closed with
  | true => exact .pure ⟨h, by simp⟩
  | false => exact h ▸ parametersFrom_yields n 0

theorem function_yields (n : Nat) (hblock : YieldsBody block) (kind : String) :
    YieldsFrom s (function n block kind) fun d next => d.Parsed s.nextId next := by
  refine (identifier_yields _).bind fun name s₁ _ h₁ => ?_
  refine (expect_yields (by decide) _).bind fun _ s₂ _ h₂ => ?_
  refine (parameters_yields n).bind fun names s₄ _ h₄ => ?_
  refine (expect_yields (by decide) _).bind fun _ s₅ _ h₅ => ?_
  refine (expect_yields (by decide) _).bind fun _ s₆ _ h₆ => ?_
  refine (hblock s₆).bind fun body s₇ hle₇ hbody => ?_
  have hid : @Eq Nat s₆.nextId s.nextId :=
    h₆.1.trans (h₅.1.trans (h₄.1.trans (h₂.1.trans h₁.1)))
  rw [hid] at hbody hle₇
  refine freshId_yields.bind fun id s₈ _ h₈ => .pure ⟨⟨h₁.2, h₄.2, hbody.1⟩, ?_⟩
  have hnew : GivenOut s₇.nextId s₈.nextId [id] := .singleton (by omega) (by omega)
  exact hbody.2.append_before hnew hle₇ (by omega)

theorem methodsFrom_yields (hblock : YieldsBody block) (n : Nat) :
    YieldsFrom s (methodsFrom block n) fun ds next => FunctionDecl.AllParsed s.nextId next ds := by
  induction n generalizing s with
  | zero => exact .pure ⟨trivial, .nil⟩
  | succ n ih =>
    refine (check_yields _).bind fun closed s₁ _ h₁ => ?_
    refine (check_yields _).bind fun atEnd s₂ _ h₂ => ?_
    have hid : @Eq Nat s₂.nextId s.nextId := h₂.trans h₁
    split
    · exact .pure ⟨trivial, .nil⟩
    · refine (function_yields n hblock "method").bind fun d s₃ hle hd => ?_
      refine ih.bind fun ds s₄ hle' hds => .pure ?_
      have hgiven : GivenOut s.nextId s₄.nextId (FunctionDecl.allNodes (d :: ds)) :=
        (hid ▸ hd.2).append hds.2 (by omega) hle'
      obtain ⟨-, -, hdisjoint⟩ := List.nodup_append.mp hgiven.nodup
      exact ⟨⟨hd.1, fun h => hdisjoint _ d.id_mem_nodes _ (FunctionDecl.ids_subset_allNodes ds h) rfl, hds.1⟩, hgiven⟩

theorem superclass_yields :
    YieldsFrom s superclass fun r next => match r with
      | none => next = s.nextId
      | some r => r.id = s.nextId ∧ next = s.nextId + 1 ∧ Plain r.ident.name := by
  refine (accept_yields (by decide)).bind fun less s₁ _ h₁ => ?_
  cases less with
  | true =>
    refine (identifier_yields _).bind fun name s₂ _ h₂ => ?_
    refine (reference_yields name).bind fun r s₃ _ h₃ => ?_
    have hid : @Eq Nat s₂.nextId s.nextId := h₂.1.trans h₁
    obtain ⟨rfl, hnext⟩ := h₃
    exact .pure ⟨hid, by rw [hnext, hid], h₂.2⟩
  | false => exact .pure h₁

theorem classDeclaration_yields (n : Nat) (hblock : YieldsBody block) :
    YieldsFrom s (classDeclaration n block) fun stmt next => stmt.Parsed s.nextId next := by
  refine (identifier_yields _).bind fun name s₁ _ h₁ => ?_
  refine superclass_yields.bind fun superclass s₃ hle₃ h₃ => ?_
  refine (expect_yields (by decide) _).bind fun _ s₄ _ h₄ => ?_
  refine (methodsFrom_yields hblock n).bind fun methods s₅ hle₅ hmethods => ?_
  refine (expect_yields (by decide) _).bind fun _ s₆ _ h₆ => ?_
  rw [h₄.1] at hmethods hle₅
  rw [← h₆.1] at hmethods hle₅
  rw [h₁.1] at h₃ hle₃
  cases superclass with
  | none => exact .pure ⟨⟨h₁.2, hmethods.1⟩, h₃ ▸ hmethods.2⟩
  | some r =>
    obtain ⟨hid, hnext, hname⟩ := h₃
    refine .pure ⟨⟨h₁.2, hname, hmethods.1⟩, ?_⟩
    have hnew : GivenOut s.nextId s₃.nextId [r.id] :=
      .singleton (Nat.le_of_eq hid.symm) (by rw [hid, hnext]; exact Nat.lt_succ_self _)
    exact hnew.append hmethods.2 hle₃ hle₅

theorem skipToBoundary_suffix (last : TokenKind) (ts : List Token) :
    skipToBoundary last ts <:+ ts := by
  induction ts generalizing last with
  | nil => exact List.suffix_rfl
  | cons t rest ih =>
    unfold skipToBoundary
    split
    · exact List.suffix_rfl
    · exact (ih t.kind).trans (List.suffix_cons t rest)

/-- Skipping does not pass the end of the file. -/
theorem skipToBoundary_endOfFile (last : TokenKind) {ts : List Token} {t : Token} (ht : t.kind = .eof)
    (h : [t] <:+ ts) : [t] <:+ skipToBoundary last ts := by
  induction ts generalizing last with
  | nil => exact h
  | cons t' rest ih =>
    unfold skipToBoundary
    split
    case isTrue => exact h
    case isFalse hstop =>
      rcases List.suffix_cons_iff.mp h with heq | hrest
      · obtain ⟨rfl, _⟩ := List.cons.inj heq
        exact absurd (Or.inl ht) hstop
      · exact ih t'.kind hrest

theorem afterFault_suffix (ts : List Token) : afterFault ts <:+ ts := by
  cases ts with
  | nil => exact List.suffix_rfl
  | cons t rest =>
    simp only [afterFault]
    split
    · exact List.suffix_rfl
    · exact (skipToBoundary_suffix t.kind rest).trans (List.suffix_cons t rest)

theorem afterFault_endOfFile {ts : List Token} {t : Token} (ht : t.kind = .eof) (h : [t] <:+ ts) :
    [t] <:+ afterFault ts := by
  cases ts with
  | nil => exact h
  | cons t' rest =>
    simp only [afterFault]
    split
    case isTrue => exact h
    case isFalse hstop =>
      rcases List.suffix_cons_iff.mp h with heq | hrest
      · obtain ⟨rfl, _⟩ := List.cons.inj heq
        exact absurd ht hstop
      · exact skipToBoundary_endOfFile t'.kind ht hrest

theorem recovering_yields {rule : Parser Stmt}
    (hrule : YieldsFrom s rule fun stmt next => stmt.Parsed s.nextId next) :
    YieldsFrom s (recovering rule) fun r next => ∀ stmt ∈ r, stmt.Parsed s.nextId next := by
  intro hwords
  have h := hrule hwords
  unfold Ends EStateM.run at h ⊢
  unfold recovering
  cases hrun : rule s with
  | ok stmt s' =>
    rw [hrun] at h
    exact ⟨h.1, by simpa using h.2⟩
  | error fault s' =>
    rw [hrun] at h
    have hskipped : Proceeds s' { s' with rest := afterFault s'.rest } :=
      ⟨⟨afterFault_suffix _, Nat.le_refl _, List.prefix_rfl, fun t ht hlast => afterFault_endOfFile ht hlast⟩,
        fun _ hd => .inl hd⟩
    exact ⟨h.1.trans (hskipped.trans (reported_proceeds h.2)), by simp⟩

theorem declarationWith_yields (n : Nat) (hstatement : YieldsStmt statement)
    (hblock : YieldsBody block) :
    YieldsFrom s (declarationWith n statement block) fun r next =>
      ∀ stmt ∈ r, stmt.Parsed s.nextId next := by
  refine recovering_yields ((acceptWith?_yields rfl).bind fun r s₁ _ h => ?_)
  rw [← h.1]
  cases r with
  | none => exact (statementWith_yields n hstatement hblock s₁).imp fun _ _ _ hstmt => hstmt.2
  | some found =>
    obtain ⟨lead, t⟩ := found
    cases lead with
    | kwClass => exact classDeclaration_yields n hblock
    | kwFun => exact (function_yields n hblock "function").bind fun d _ _ hd => .pure hd
    | kwVar => exact varDeclaration_yields n

/-- The statements of a declaration, in front of others. -/
theorem toList_append_parsed {r : Option Stmt} {rest : List Stmt} {first middle next : Nat}
    (hr : ∀ stmt ∈ r, stmt.Parsed first middle) (hrest : Stmt.AllParsed middle next rest)
    (hfirst : first ≤ middle) (hnext : middle ≤ next) :
    Stmt.AllParsed first next (r.toList ++ rest) := by
  cases r with
  | none => exact ⟨hrest.1, hrest.2.widen hfirst (Nat.le_refl _)⟩
  | some stmt =>
    have hstmt := hr stmt rfl
    exact ⟨⟨hstmt.1, hrest.1⟩, hstmt.2.append hrest.2 hfirst hnext⟩

/-- The rule yields a declaration or nothing, from any state. -/
def YieldsDeclaration (p : Parser (Option Stmt)) : Prop :=
  ∀ s, YieldsFrom s p fun r next => ∀ stmt ∈ r, stmt.Parsed s.nextId next

theorem declarationsFrom_yields {declaration : Parser (Option Stmt)}
    (hdeclaration : YieldsDeclaration declaration) (n : Nat) :
    YieldsFrom s (declarationsFrom declaration n) fun body next =>
      Stmt.AllParsed s.nextId next body := by
  induction n generalizing s with
  | zero => exact .pure ⟨trivial, .nil⟩
  | succ n ih =>
    refine (check_yields _).bind fun closed s₁ _ h₁ => ?_
    refine (check_yields _).bind fun atEnd s₂ _ h₂ => ?_
    have hid : @Eq Nat s₂.nextId s.nextId := h₂.trans h₁
    split
    · exact .pure ⟨trivial, .nil⟩
    · refine (hdeclaration s₂).bind fun r s₃ hle hr => ?_
      refine ih.bind fun rest s₄ hle' hrest => .pure ?_
      rw [hid] at hr hle
      exact toList_append_parsed hr hrest hle hle'

theorem blockWith_yields {declaration : Parser (Option Stmt)}
    (hdeclaration : YieldsDeclaration declaration) (n : Nat) :
    YieldsBody (blockWith n declaration) := fun s =>
  (declarationsFrom_yields hdeclaration n).bind fun body _ _ hbody =>
    (expect_yields (by decide) _).bind fun _ _ _ h => .pure (h.1 ▸ hbody)

end Statements

theorem statement_block_yield (n : Nat) : YieldsStmt (statement n) ∧ YieldsBody (block n) := by
  induction n with
  | zero => exact ⟨fun s => failHere_yields _ _, fun s => failHere_yields _ _⟩
  | succ n ih =>
    refine ⟨statementWith_yields (n + 1) ih.1 ih.2, blockWith_yields (fun s => ?_) (n + 1)⟩
    exact declarationWith_yields (n + 1) ih.1 ih.2

theorem declaration_yields (n : Nat) : YieldsDeclaration (declaration n) := fun _ =>
  declarationWith_yields n (statement_block_yield n).1 (statement_block_yield n).2

theorem programFrom_yields {s : State} {declaration : Parser (Option Stmt)}
    (hdeclaration : YieldsDeclaration declaration) (n : Nat) :
    YieldsFrom s (programFrom declaration n) fun body next => Stmt.AllParsed s.nextId next body := by
  induction n generalizing s with
  | zero => exact .pure ⟨trivial, .nil⟩
  | succ n ih =>
    refine (check_yields _).bind fun atEnd s₁ _ h₁ => ?_
    cases atEnd with
    | true => exact .pure ⟨trivial, .nil⟩
    | false =>
      refine (hdeclaration s₁).bind fun r s₂ hle hr => ?_
      refine ih.bind fun rest s₃ hle' hrest => .pure ?_
      rw [h₁] at hr hle
      exact toList_append_parsed hr hrest hle hle'

end Parser

/-- Identities are given out from the first one on, and the parsed program is well formed. -/
theorem parse_yields {ts : List Token} (hwords : Words ts) (firstId : Nat) :
    @LE.le Nat _ firstId (parse ts firstId).nextId ∧
      Stmt.AllParsed firstId (parse ts firstId).nextId (parse ts firstId).statements := by
  have h := Parser.programFrom_yields (Parser.declaration_yields ts.length) ts.length
    (s := ⟨ts, firstId, #[]⟩) hwords
  unfold Ends at h
  unfold parse
  dsimp only
  cases hrun : (Parser.programFrom (Parser.declaration ts.length) ts.length).run ⟨ts, firstId, #[]⟩ with
  | ok body s =>
    rw [hrun] at h
    exact ⟨h.1.nextId, h.2⟩
  | error fault s =>
    rw [hrun] at h
    exact ⟨h.1.nextId, trivial, .nil⟩

/-- Parsing finds faults of grammar and no others. -/
theorem parse_grammar {ts : List Token} (hwords : Words ts) (firstId : Nat) :
    ∀ d ∈ (parse ts firstId).faults, d.OfGrammar := by
  have h := Parser.programFrom_yields (Parser.declaration_yields ts.length) ts.length
    (s := ⟨ts, firstId, #[]⟩) hwords
  unfold Ends at h
  unfold parse
  dsimp only
  intro d hd
  cases hrun : (Parser.programFrom (Parser.declaration ts.length) ts.length).run ⟨ts, firstId, #[]⟩ with
  | ok body s =>
    rw [hrun] at h hd
    exact (h.1.grammar d hd).resolve_left List.not_mem_nil
  | error fault s =>
    rw [hrun] at h hd
    rcases Array.mem_push.mp (Array.mem_toList_iff.mp hd) with hmem | rfl
    · exact (h.1.grammar d (Array.mem_toList_iff.mpr hmem)).resolve_left List.not_mem_nil
    · exact h.2

end LoxLang
