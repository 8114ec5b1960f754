import LoxLang.Proofs.Syntax.Chunk
import LoxLang.Token.Lexer

/-!
A malformed simple statement damages nothing around it. The rules for expressions never consume a semicolon,
and look no further, so a simple statement ends at its semicolon or fails in front of it or at it; and then
the next boundary is behind that semicolon.
-/

namespace LoxLang

namespace Parser

/-- Tokens that can stand in front of the semicolon of a simple statement, well formed or not: no statement
begins or ends among them, but for one that they may begin with. -/
structure Flat (ts : List Token) : Prop where
  inside : ∀ t ∈ ts, t.kind ∉ [.eof, .semicolon, .leftBrace, .kwClass, .kwFun, .kwFor, .kwIf, .kwWhile]
  behind : ∀ t ∈ ts.tail, t.kind ∉ [.kwVar, .kwPrint, .kwReturn, .kwBreak, .kwContinue]

/-- Two token lists that are the same up to a semicolon and go on in two ways behind it. -/
structure Fork where
  front : List Token
  semicolon : Token
  tail : List Token
  tail' : List Token
  kind : semicolon.kind = .semicolon

namespace Fork

variable {F : Fork} {α β : Type}

/-- Both lists have been read up to the same token in front of the semicolon, or up to the semicolon. -/
structure At (F : Fork) (s t : State) : Prop where
  rest : ∃ ts, ts <:+ F.front ∧ s.rest = ts ++ F.semicolon :: F.tail ∧ t.rest = ts ++ F.semicolon :: F.tail'
  nextId : s.nextId = t.nextId
  faults : s.faults = t.faults

/-- Both lists have been read up to what follows the semicolon. -/
structure Past (F : Fork) (s t : State) : Prop where
  rest : s.rest = F.tail
  rest' : t.rest = F.tail'
  nextId : s.nextId = t.nextId
  faults : s.faults = t.faults

/-- The rule does the same on both lists, and does not consume the semicolon. -/
def Stays (F : Fork) (p : Parser α) : Prop :=
  ∀ s t, F.At s t → Agree p p s t (fun a s' b t' => a = b ∧ F.At s' t') fun e s' e' t' => e = e' ∧ F.At s' t'

/-- The rule does the same on both lists, and if it succeeds, it has consumed the semicolon as the last
token. -/
def Closes (F : Fork) (p : Parser α) : Prop :=
  ∀ s t, F.At s t → Agree p p s t (fun a s' b t' => a = b ∧ F.Past s' t') fun e s' e' t' => e = e' ∧ F.At s' t'

theorem At.front {s t : State} (h : F.At s t) : s.front = t.front := by
  obtain ⟨ts, _, hs, ht⟩ := h.rest
  unfold State.front
  rw [hs, ht]
  cases ts <;> rfl

/-! ### Sequences -/

section Sequences

variable {p : Parser α} {f : α → Parser β}

theorem Stays.pure (a : α) : F.Stays (Pure.pure a) := fun _ _ h => ⟨rfl, h⟩

theorem Stays.bind (hp : F.Stays p) (hf : ∀ a, F.Stays (f a)) : F.Stays (p >>= f) := by
  intro s t h
  refine (hp s t h).bind ?_
  rintro a s' _ t' ⟨rfl, h'⟩
  exact hf a s' t' h'

theorem Stays.then_closes (hp : F.Stays p) (hf : ∀ a, F.Closes (f a)) : F.Closes (p >>= f) := by
  intro s t h
  refine (hp s t h).bind ?_
  rintro a s' _ t' ⟨rfl, h'⟩
  exact hf a s' t' h'

/-- What a rule yields that has consumed the semicolon. -/
theorem Closes.map (hp : F.Closes p) (g : α → β) : F.Closes (p >>= fun a => Pure.pure (g a)) := by
  intro s t h
  refine (hp s t h).bind ?_
  rintro a s' _ t' ⟨rfl, h'⟩
  exact ⟨rfl, h'⟩

end Sequences

/-! ### Tokens -/

section Tokens

theorem failHere_agrees (fault : GrammarFault) {s t : State} (h : F.At s t)
    {value : α → State → α → State → Prop} :
    Agree (failHere fault : Parser α) (failHere fault) s t value fun e s' e' t' => e = e' ∧ F.At s' t' := by
  have hfault : (⟨s.front.position, .grammar fault, none⟩ : Diagnostic) = ⟨t.front.position, .grammar fault, none⟩ := by
    rw [h.front]
  exact ⟨hfault, h⟩

theorem failHere_stays (fault : GrammarFault) : F.Stays (failHere fault : Parser α) :=
  fun _ _ h => failHere_agrees fault h

theorem failHere_closes (fault : GrammarFault) : F.Closes (failHere fault : Parser α) :=
  fun _ _ h => failHere_agrees fault h

theorem report_stays (position : Position) (fault : GrammarFault) : F.Stays (report position fault) :=
  fun _ _ h => ⟨rfl, h.rest, h.nextId, congrArg (Array.push · ⟨position, .grammar fault, none⟩) h.faults⟩

theorem peek_stays : F.Stays peek := fun _ _ h => ⟨h.front, h⟩

theorem checkArity_stays (count : Nat) (fault : GrammarFault) : F.Stays (checkArity count fault) := by
  unfold checkArity
  split
  · exact peek_stays.bind fun t => report_stays _ _
  · exact .pure ()

theorem freshId_stays : F.Stays freshId := fun _ _ h =>
  ⟨h.nextId, h.rest, congrArg (· + 1) h.nextId, h.faults⟩

theorem reference_stays (name : Ident) : F.Stays (reference name) :=
  freshId_stays.bind fun _ => .pure _

theorem check_stays (kind : TokenKind) : F.Stays (check kind) :=
  peek_stays.bind fun _ => .pure _

theorem run_acceptWith?_front {choose : TokenKind → Option α} {s : State} (h : choose s.front.kind = none) :
    (acceptWith? choose).run s = .ok none s :=
  run_acceptWith?_none fun u us hu => by
    rw [State.front, hu] at h
    exact h

/-- A choice among tokens that are no semicolon: the one that is chosen stands in front of it. -/
theorem acceptWith?_agrees {choose : TokenKind → Option α} (hchoose : choose .semicolon = none) {s t : State}
    (h : F.At s t) : Agree (acceptWith? choose) (acceptWith? choose) s t
      (fun a s' b t' => (a = b ∧ F.At s' t') ∧
        ∀ lead u, a = some (lead, u) → u ∈ F.front ∧ choose u.kind = some lead)
      fun e s' e' t' => e = e' ∧ F.At s' t' := by
  obtain ⟨ts, hts, hs, ht⟩ := h.rest
  by_cases hfront : choose s.front.kind = none
  · unfold Agree
    rw [run_acceptWith?_front hfront, run_acceptWith?_front (h.front ▸ hfront)]
    exact ⟨⟨rfl, h⟩, fun _ _ h => nomatch h⟩
  · cases ts with
    | nil =>
      refine absurd ?_ hfront
      rw [State.front, hs, ← hchoose, ← F.kind]
      rfl
    | cons v ts =>
      obtain ⟨lead, hlead⟩ : ∃ lead, choose v.kind = some lead := by
        rw [State.front, hs] at hfront
        exact Option.ne_none_iff_exists'.mp hfront
      unfold Agree
      rw [run_acceptWith?_some hs hlead, run_acceptWith?_some ht hlead]
      refine ⟨⟨rfl, ⟨ts, (List.suffix_cons v ts).trans hts, rfl, rfl⟩, h.nextId, h.faults⟩, ?_⟩
      rintro _ _ ⟨⟩
      exact ⟨hts.subset List.mem_cons_self, hlead⟩

theorem acceptWith?_stays {choose : TokenKind → Option α} (hchoose : choose .semicolon = none) :
    F.Stays (acceptWith? choose) := by
  intro s t h
  exact (acceptWith?_agrees hchoose h).imp (fun _ _ _ _ h => h.1) fun _ _ _ _ h => h

/-- A choice by the token in front, among words that are no semicolon. -/
theorem choice_closes {choose : TokenKind → Option α} {f : Option (α × Token) → Parser β}
    (hchoose : choose .semicolon = none) (hnone : F.Closes (f none))
    (hsome : ∀ lead u, u ∈ F.front → choose u.kind = some lead → F.Closes (f (some (lead, u)))) :
    F.Closes (acceptWith? choose >>= f) := by
  intro s t h
  refine (acceptWith?_agrees hchoose h).bind ?_
  rintro (_ | ⟨lead, u⟩) s' _ t' ⟨⟨rfl, h'⟩, hfound⟩
  · exact hnone s' t' h'
  · obtain ⟨hu, hlead⟩ := hfound lead u rfl
    exact hsome lead u hu hlead s' t' h'

theorem accept_stays {kind : TokenKind} (hkind : kind ≠ .semicolon) : F.Stays (accept kind) :=
  (acceptWith?_stays (if_neg hkind.symm)).bind fun _ => .pure _

theorem expect_stays {kind : TokenKind} (hkind : kind ≠ .semicolon) (what : String) :
    F.Stays (expect kind what) := by
  refine (acceptWith?_stays (if_neg hkind.symm)).bind fun r => ?_
  cases r with
  | none => exact failHere_stays _
  | some found => exact .pure _

theorem identifier_stays (what : String) : F.Stays (identifier what) :=
  (expect_stays (by decide) what).bind fun _ => .pure _

/-- The semicolon is consumed if everything in front of it has been. -/
theorem expect_closes (hfront : ∀ t ∈ F.front, t.kind ≠ .semicolon) (what : String) :
    F.Closes (expect .semicolon what) := by
  intro s t h
  obtain ⟨ts, hts, hs, ht⟩ := h.rest
  unfold Agree expect
  rw [EStateM.run_bind, EStateM.run_bind]
  cases ts with
  | nil =>
    have hchosen : (if F.semicolon.kind = .semicolon then some () else none) = some () := if_pos F.kind
    rw [run_acceptWith?_some hs hchosen, run_acceptWith?_some ht hchosen]
    exact ⟨rfl, rfl, rfl, h.nextId, h.faults⟩
  | cons u us =>
    have hrefused : (if s.front.kind = .semicolon then some () else none) = none := by
      rw [State.front, hs]
      exact if_neg (hfront u (hts.subset List.mem_cons_self))
    rw [run_acceptWith?_front hrefused, run_acceptWith?_front (h.front ▸ hrefused)]
    have hfails : F.Closes (failHere (.expected what) : Parser Token) := failHere_closes _
    exact hfails s t h

end Tokens

/-! ### Expressions -/

section Expressions

variable {expression operand : Parser Expr}

theorem chainFrom_stays {choose : TokenKind → Option (Expr → Position → Expr → Expr)}
    (hchoose : choose .semicolon = none) (hoperand : F.Stays operand) (n : Nat) (left : Expr) :
    F.Stays (chainFrom choose operand n left) := by
  induction n generalizing left with
  | zero => exact .pure left
  | succ n ih =>
    refine (acceptWith?_stays hchoose).bind fun r => ?_
    cases r with
    | none => exact .pure left
    | some found => exact hoperand.bind fun right => ih _

theorem chain_stays {choose : TokenKind → Option (Expr → Position → Expr → Expr)}
    (hchoose : choose .semicolon = none) (hoperand : F.Stays operand) (n : Nat) :
    F.Stays (chain n choose operand) :=
  hoperand.bind fun left => chainFrom_stays hchoose hoperand n left

theorem unary_stays (hoperand : F.Stays operand) (n : Nat) : F.Stays (unary operand n) := by
  induction n with
  | zero => exact hoperand
  | succ n ih =>
    refine (acceptWith?_stays rfl).bind fun r => ?_
    cases r with
    | none => exact hoperand
    | some found => exact ih.bind fun e => .pure _

theorem argumentsFrom_stays (hexpression : F.Stays expression) (n count : Nat) :
    F.Stays (argumentsFrom expression n count) := by
  induction n generalizing count with
  | zero => exact .pure []
  | succ n ih =>
    refine (checkArity_stays _ _).bind fun _ => hexpression.bind fun argument => ?_
    refine (accept_stays (by decide)).bind fun comma => ?_
    cases comma with
    | true => exact (ih (count + 1)).bind fun rest => .pure _
    | false => exact .pure _

theorem arguments_stays (hexpression : F.Stays expression) (n : Nat) : F.Stays (arguments n expression) := by
  refine (check_stays _).bind fun closed => ?_
  cases closed with
  | true => exact .pure []
  | false => exact argumentsFrom_stays hexpression n 0

theorem finishCall_stays (hexpression : F.Stays expression) (n : Nat) (callee : Expr) :
    F.Stays (finishCall n expression callee) :=
  (arguments_stays hexpression n).bind fun _ => (expect_stays (by decide) _).bind fun _ => .pure _

theorem postfixes_stays (hexpression : F.Stays expression) (n : Nat) (e : Expr) :
    F.Stays (postfixes expression n e) := by
  induction n generalizing e with
  | zero => exact .pure e
  | succ n ih =>
    refine (accept_stays (by decide)).bind fun paren => ?_
    cases paren with
    | true => exact (finishCall_stays hexpression n e).bind ih
    | false =>
      refine (accept_stays (by decide)).bind fun dot => ?_
      cases dot with
      | true => exact (identifier_stays _).bind fun property => ih _
      | false => exact .pure e

theorem primary_stays (hexpression : F.Stays expression) : F.Stays (primary expression) := by
  refine (acceptWith?_stays rfl).bind fun r => ?_
  rcases r with _ | ⟨lead, t⟩
  · exact failHere_stays _
  · cases lead with
    | constant value => exact .pure _
    | literal => exact .pure _
    | super =>
      refine (expect_stays (by decide) _).bind fun _ => (identifier_stays _).bind fun method => ?_
      exact freshId_stays.bind fun id => .pure _
    | this => exact freshId_stays.bind fun id => .pure _
    | name => exact (reference_stays _).bind fun r => .pure _
    | paren => exact hexpression.bind fun inner => (expect_stays (by decide) _).bind fun _ => .pure _

theorem operand_stays (hexpression : F.Stays expression) (n : Nat) : F.Stays (Parser.operand n expression) :=
  unary_stays ((primary_stays hexpression).bind fun e => postfixes_stays hexpression n e) n

theorem binary_stays (hexpression : F.Stays expression) (n : Nat) : F.Stays (binary n expression) := by
  have hall : ∀ tiers : List (TokenKind → Option BinaryOp), (∀ tier ∈ tiers, tier .semicolon = none) →
      F.Stays (tiers.foldr (fun tier operand => chain n
        (fun k => (tier k).map fun op l p r => .binary l op p r) operand) (Parser.operand n expression)) := by
    intro tiers htiers
    induction tiers with
    | nil => exact operand_stays hexpression n
    | cons tier rest ih =>
      obtain ⟨htier, hrest⟩ := List.forall_mem_cons.mp htiers
      exact chain_stays (by rw [htier]; rfl) (ih hrest) n
  exact hall binaryTiers (by simp [binaryTiers])

theorem logical_stays (hexpression : F.Stays expression) (n : Nat) : F.Stays (logical n expression) :=
  chain_stays rfl (chain_stays rfl (binary_stays hexpression n) n) n

/-- No expression goes on behind a semicolon, whether it fails or not. -/
theorem expression_stays (n : Nat) : F.Stays (Parser.expression n) := by
  induction n with
  | zero => exact failHere_stays _
  | succ n ih =>
    refine (logical_stays ih (n + 1)).bind fun target => (acceptWith?_stays rfl).bind fun r => ?_
    rcases r with _ | ⟨-, equals⟩
    · exact .pure target
    · refine ih.bind fun value => ?_
      cases target with
      | read r => exact (reference_stays r.ident).bind fun r' => .pure _
      | get object property => exact .pure _
      | _ => exact (report_stays _ _).bind fun _ => .pure _

end Expressions

/-! ### Recovery -/

theorem skipToBoundary_semicolon (ts : List Token) : skipToBoundary .semicolon ts = ts := by
  cases ts with
  | nil => rfl
  | cons t rest => exact if_pos (.inr (.inl rfl))

/-- Where no statement begins, tokens are skipped up to a semicolon. -/
theorem skipToBoundary_append {ts : List Token} (last : TokenKind) (hlast : last ≠ .semicolon)
    (hts : ∀ t ∈ ts, t.kind ≠ .eof ∧ t.kind ≠ .semicolon ∧ beginsStatement t.kind = false) (F : Fork)
    (tail : List Token) : skipToBoundary last (ts ++ F.semicolon :: tail) = tail := by
  induction ts generalizing last with
  | nil =>
    have hgoes : ¬(F.semicolon.kind = .eof ∨ last = .semicolon ∨ beginsStatement F.semicolon.kind) := by
      simp [F.kind, hlast, beginsStatement]
    rw [List.nil_append, skipToBoundary, if_neg hgoes, F.kind, skipToBoundary_semicolon]
  | cons t ts ih =>
    obtain ⟨⟨heof, hsemicolon, hbegins⟩, hrest⟩ := List.forall_mem_cons.mp hts
    have hgoes : ¬(t.kind = .eof ∨ last = .semicolon ∨ beginsStatement t.kind) := by
      simp [heof, hlast, hbegins]
    rw [List.cons_append, skipToBoundary, if_neg hgoes]
    exact ih t.kind hsemicolon hrest

/-! ### Statements -/

section Statements

theorem initializer_stays (n : Nat) : F.Stays (initializer n) := by
  refine (accept_stays (by decide)).bind fun given => ?_
  cases given with
  | true => exact (expression_stays n).bind fun value => .pure _
  | false => exact .pure none

theorem expressionUnless_stays (n : Nat) (kind : TokenKind) : F.Stays (expressionUnless n kind) := by
  refine (check_stays kind).bind fun here => ?_
  cases here with
  | true => exact .pure none
  | false => exact (expression_stays n).bind fun value => .pure _

variable (hflat : Flat F.front)
include hflat

theorem semicolon_closes (what : String) : F.Closes (expect .semicolon what) :=
  expect_closes (fun t ht hkind => by simpa [hkind] using hflat.inside t ht) what

theorem varDeclaration_closes (n : Nat) : F.Closes (varDeclaration n) :=
  (identifier_stays _).then_closes fun _ => (initializer_stays n).then_closes fun _ =>
    (semicolon_closes hflat _).map _

theorem expressionStatement_closes (n : Nat) : F.Closes (expressionStatement n) :=
  (expression_stays n).then_closes fun _ => (semicolon_closes hflat _).map _

theorem printStatement_closes (n : Nat) : F.Closes (printStatement n) :=
  (expression_stays n).then_closes fun _ => (semicolon_closes hflat _).map _

theorem returnStatement_closes (n : Nat) (keyword : Token) : F.Closes (returnStatement n keyword) :=
  (expressionUnless_stays n _).then_closes fun _ => (semicolon_closes hflat _).map _

/-- A statement that has no other one inside. -/
theorem statementWith_closes (n : Nat) (statement : Parser Stmt) (block : Parser (List Stmt)) :
    F.Closes (statementWith n statement block) := by
  refine choice_closes rfl (expressionStatement_closes hflat n) fun lead u hu hlead => ?_
  have hinside := hflat.inside u hu
  cases lead with
  | «return» => exact returnStatement_closes hflat n u
  | «break» => exact (semicolon_closes hflat _).map _
  | «continue» => exact (semicolon_closes hflat _).map _
  | print => exact printStatement_closes hflat n
  | _ =>
    refine (hinside ?_).elim
    generalize u.kind = kind at hlead
    cases kind <;> first | decide | cases hlead

theorem afterFault_append {ts : List Token} (hts : ts <:+ F.front) (tail : List Token) :
    afterFault (ts ++ F.semicolon :: tail) = tail := by
  cases ts with
  | nil =>
    have heof : F.semicolon.kind ≠ .eof := by simp [F.kind]
    rw [List.nil_append, afterFault, if_neg heof, F.kind, skipToBoundary_semicolon]
  | cons t ts =>
    have hinside := hflat.inside t (hts.subset List.mem_cons_self)
    have heof : t.kind ≠ .eof := fun h => by simp [h] at hinside
    have hsemicolon : t.kind ≠ .semicolon := fun h => by simp [h] at hinside
    rw [List.cons_append, afterFault, if_neg heof]
    refine skipToBoundary_append t.kind hsemicolon (fun u hu => ?_) F tail
    -- A word that begins a statement can only stand at the very front, and that token is skipped.
    have hbehind : u ∈ F.front.tail := by
      obtain ⟨before, hfront⟩ := hts
      cases before <;> rw [← hfront] <;> simp [hu]
    have hu' := hflat.inside u (List.mem_of_mem_tail hbehind)
    have hu'' := hflat.behind u hbehind
    generalize u.kind = kind at hu' hu''
    cases kind <;> first | exact ⟨by decide, by decide, rfl⟩ | simp at hu' hu''

/-- A faulty statement is left out, and parsing goes on behind its semicolon. -/
theorem recovering_past {rule : Parser Stmt} (hrule : F.Closes rule) {s t : State} (h : F.At s t) :
    Agree (recovering rule) (recovering rule) s t (fun a s' b t' => a = b ∧ F.Past s' t') fun _ _ _ _ => False := by
  have hruns := (hrule s t h).runs
  unfold Agree recovering
  dsimp only [EStateM.run] at hruns ⊢
  obtain ⟨stmt, s', stmt', t', hs, ht, hsame, hpast⟩ | ⟨fault, s', _, t', hs, ht, rfl, h'⟩ := hruns
  · rw [hs, ht]
    exact ⟨congrArg some hsame, hpast⟩
  · rw [hs, ht]
    obtain ⟨ts, hts, hrest, hrest'⟩ := h'.rest
    refine ⟨rfl, ?_, ?_, h'.nextId, congrArg (Array.push · fault) h'.faults⟩
    · exact (congrArg afterFault hrest).trans (afterFault_append hflat hts F.tail)
    · exact (congrArg afterFault hrest').trans (afterFault_append hflat hts F.tail')

/-- A declaration that begins in front of the semicolon ends there, whether it is faulty or not. -/
theorem declaration_past (n : Nat) {s t : State} (h : F.At s t) :
    Agree (declaration n) (declaration n) s t (fun a s' b t' => a = b ∧ F.Past s' t') fun _ _ _ _ => False := by
  refine recovering_past hflat (choice_closes rfl (statementWith_closes hflat n _ _) ?_) h
  intro lead u hu hlead
  have hinside := hflat.inside u hu
  cases lead with
  | kwVar => exact varDeclaration_closes hflat n
  | _ =>
    refine (hinside ?_).elim
    generalize u.kind = kind at hlead
    cases kind <;> first | decide | cases hlead

end Statements

end Fork

/-- A declaration that begins with such tokens ends behind their semicolon, and does not depend on what stands
there. -/
theorem Flat.run_declaration {b : List Token} (hb : Flat b) {semicolon : Token}
    (hsemicolon : semicolon.kind = .semicolon) (n : Nat) (firstId : NodeId) :
    ∃ stmt? nextId faults, ∀ tail, (declaration n).run ⟨b ++ semicolon :: tail, firstId, #[]⟩ =
      .ok stmt? ⟨tail, nextId, faults⟩ := by
  have hpast : ∀ tail, Agree (declaration n) (declaration n) ⟨b ++ semicolon :: tail, firstId, #[]⟩
      ⟨b ++ [semicolon], firstId, #[]⟩
      (fun a s' a' t' => a = a' ∧ Fork.Past ⟨b, semicolon, tail, [], hsemicolon⟩ s' t') fun _ _ _ _ => False :=
    fun tail => Fork.declaration_past hb n ⟨⟨b, List.suffix_rfl, rfl, rfl⟩, rfl, rfl⟩
  cases hrun : (declaration n).run ⟨b ++ [semicolon], firstId, #[]⟩ with
  | error fault t =>
    obtain ⟨_, _, _, h⟩ := (hpast []).run_of_error hrun
    exact h.elim
  | ok stmt? t =>
    refine ⟨stmt?, t.nextId, t.faults, fun tail => ?_⟩
    obtain ⟨_, s, _, t', hrun', ht', rfl, hpast⟩ | ⟨_, _, _, _, _, _, h⟩ := (hpast tail).runs
    · cases hrun.symm.trans ht'
      have hrest : s.rest = tail := hpast.rest
      rw [hrun', ← hpast.nextId, ← hpast.faults, ← hrest]
    · exact h.elim

end Parser

open LoxLang.Parser (Flat)

section Between

variable {p b r : List Token} {semicolon e e₁ e₂ : Token}

theorem Ended.append {last : Token} (hlast : last.kind = .eof) (ts : List Token) : Ended (ts ++ [last]) :=
  ⟨last, hlast, List.suffix_append ts [last]⟩

/-- The front of such tokens, or the semicolon behind them. -/
theorem Parser.Flat.head (hb : Flat b) (hsemicolon : semicolon.kind = .semicolon)
    (helse : ∀ t ∈ b.head?, t.kind ≠ .kwElse) (tail : List Token) :
    ∃ t ts, b ++ semicolon :: tail = t :: ts ∧ t.kind ≠ .eof ∧ t.kind ≠ .kwElse := by
  cases b with
  | nil => exact ⟨semicolon, tail, rfl, by simp [hsemicolon], by simp [hsemicolon]⟩
  | cons t ts =>
    refine ⟨t, ts ++ semicolon :: tail, rfl, fun h => ?_, helse t rfl⟩
    simpa [h] using hb.inside t List.mem_cons_self

/-- The loop over the declarations yields what such tokens yield on their own, and goes on behind their
semicolon. -/
theorem run_flat (hb : Flat b) (hsemicolon : semicolon.kind = .semicolon)
    (helse : ∀ t ∈ b.head?, t.kind ≠ .kwElse) (he : e.kind = .eof) {firstId : Nat} {B : Parse}
    (hB : parse (b ++ [semicolon, e]) firstId = B) {m : Nat} (hm : b.length + 2 ≤ m) (n : Nat) (tail : List Token) :
    (Parser.programFrom (Parser.declaration m) (n + 1)).run ⟨b ++ semicolon :: tail, firstId, #[]⟩ =
      (Parser.programFrom (Parser.declaration m) n >>= fun rest => pure (B.statements ++ rest)).run
        ⟨tail, B.nextId, B.faults.toArray⟩ := by
  obtain ⟨stmt?, nextId, faults, hstep⟩ := hb.run_declaration hsemicolon m firstId
  have hfirst : ∀ (n : Nat) (tail : List Token),
      (Parser.programFrom (Parser.declaration m) (n + 1)).run ⟨b ++ semicolon :: tail, firstId, #[]⟩ =
        (Parser.programFrom (Parser.declaration m) n >>= fun rest => pure (stmt?.toList ++ rest)).run
          ⟨tail, nextId, faults⟩ := by
    intro n tail
    obtain ⟨t, ts, hts, heof, -⟩ := hb.head hsemicolon helse tail
    have hfront : (⟨b ++ semicolon :: tail, firstId, #[]⟩ : Parser.State).front.kind ≠ .eof := by
      rw [Parser.State.front, hts]
      exact heof
    rw [Seam.run_programFrom_next hfront, EStateM.run_bind, hstep]
  have hlength : (b ++ [semicolon, e]).length = b.length + 2 := by simp
  have hended : Ended (b ++ [semicolon, e]) :=
    ⟨e, he, (List.suffix_cons semicolon [e]).trans (List.suffix_append b _)⟩
  have halone := ofResult_behind hended (Nat.le_trans (Nat.le_of_eq hlength) hm) (Nat.le_of_eq hlength) #[] firstId
  have hend : (⟨[e], nextId, faults⟩ : Parser.State).front.kind = .eof := he
  rw [hB, hfirst, EStateM.run_bind, Seam.run_programFrom_end hend] at halone
  obtain rfl : B = ⟨stmt?.toList, faults.toList, nextId⟩ := by
    have hbehind : B.behind #[] = B := rfl
    rw [← hbehind, ← halone]
    simp [Parse.ofResult]
  exact hfirst n tail

/-- The tokens of a program without faults, those of a simple statement, well formed or not, and any others:
each of the three parts is parsed as it is on its own, with identities that go on from those of the part in
front of it. -/
theorem parse_between (he : e.kind = .eof) (he₁ : e₁.kind = .eof) (he₂ : e₂.kind = .eof)
    (hsemicolon : semicolon.kind = .semicolon) (hp : ∀ t ∈ p, t.kind ≠ .eof) (hb : Flat b)
    (helse : ∀ t ∈ b.head?, t.kind ≠ .kwElse) {firstId : Nat} {P B R : Parse}
    (hP : parse (p ++ [e₁]) firstId = P) (hfaults : P.faults = [])
    (hB : parse (b ++ [semicolon, e₂]) P.nextId = B) (hR : parse (r ++ [e]) B.nextId = R) :
    parse (p ++ (b ++ semicolon :: (r ++ [e]))) firstId =
      ⟨P.statements ++ (B.statements ++ R.statements), B.faults ++ R.faults, R.nextId⟩ := by
  have hus : (b ++ semicolon :: (r ++ [e])).length = b.length + r.length + 2 := by simp; omega
  have hrs : (r ++ [e]).length = r.length + 1 := by simp
  obtain ⟨m, hm⟩ : ∃ m, (b ++ semicolon :: (r ++ [e])).length + p.length = m := ⟨_, rfl⟩
  have hlength : (p ++ (b ++ semicolon :: (r ++ [e]))).length = m := by
    rw [List.length_append, Nat.add_comm, hm]
  have hhead : ∀ t ts, b ++ semicolon :: (r ++ [e]) = t :: ts → t.kind ≠ .kwElse := by
    obtain ⟨t, ts, hts, -, hkind⟩ := hb.head hsemicolon helse (r ++ [e])
    intro t' ts' hts'
    cases hts.symm.trans hts'
    exact hkind
  obtain ⟨k, hk, hfront⟩ := run_front_id he₁ hp hhead (by omega) hP hfaults hm
  obtain ⟨n, rfl⟩ : ∃ n, k = n + 1 := ⟨k - 1, by omega⟩
  have hmiddle := run_flat hb hsemicolon helse he₂ hB (by omega : b.length + 2 ≤ m) n (r ++ [e])
  have hback := ofResult_behind (Ended.append he r) (by omega : (r ++ [e]).length ≤ m)
    (by omega : (r ++ [e]).length ≤ n) B.faults.toArray B.nextId
  have hends := Seam.programFrom_ends m n ⟨r ++ [e], B.nextId, B.faults.toArray⟩
  rw [hR] at hback
  unfold parse
  dsimp only
  rw [hlength, hfront, EStateM.run_bind, hmiddle, EStateM.run_bind]
  unfold Ends at hends
  cases hrun : (Parser.programFrom (Parser.declaration m) n).run ⟨r ++ [e], B.nextId, B.faults.toArray⟩ with
  | error fault s =>
    rw [hrun] at hends
    exact hends.elim
  | ok rest s =>
    rw [hrun] at hback
    have hbody : rest = R.statements := congrArg Parse.statements hback
    have hreports : s.faults.toList = B.faults ++ R.faults := congrArg Parse.faults hback
    have hnext : s.nextId = R.nextId := congrArg Parse.nextId hback
    simp only [Parse.ofResult, EStateM.run_pure, hbody, hreports, hnext]

end Between

/-- The first identity that is given out makes no other difference. -/
theorem parse_renumbered {ts : List Token} (hended : Ended ts) (i j : Nat) :
    List.Forall₂ (Stmt.Alike .renumbering) (parse ts i).statements (parse ts j).statements ∧
      (parse ts i).faults = (parse ts j).faults := by
  rw [parse_placed_id hended i, parse_placed_id hended j]
  refine ⟨?_, rfl⟩
  have halike := Move.stmts_alike (v := .along i id) (w := .along j id) rfl (parse ts 0).statements
  refine Stmt.allAlike_imp halike ⟨fun _ _ => trivial, ?_⟩
  rintro x y ⟨z, rfl, rfl⟩
  rfl

/-- A simple statement, malformed or not, damages nothing around it: neither a program without faults in front
of it nor anything behind it. -/
theorem malformed_statement_is_contained {p b r : List Token} {semicolon e e₁ e₂ : Token} (he : e.kind = .eof)
    (he₁ : e₁.kind = .eof) (he₂ : e₂.kind = .eof) (hsemicolon : semicolon.kind = .semicolon)
    (hp : ∀ t ∈ p, t.kind ≠ .eof) (hb : Flat b) (helse : ∀ t ∈ b.head?, t.kind ≠ .kwElse) (i j k l : Nat)
    (hfaults : (parse (p ++ [e₁]) i).faults = []) :
    let before := parse (p ++ [e₁]) i
    let alone := parse (b ++ [semicolon, e₂]) j
    let behind := parse (r ++ [e]) k
    let whole := parse (p ++ b ++ [semicolon] ++ r ++ [e]) l
    List.Forall₂ (Stmt.Alike .renumbering) whole.statements
        (before.statements ++ alone.statements ++ behind.statements) ∧
      whole.faults = alone.faults ++ behind.faults := by
  intro before alone behind whole
  have hends : ∀ x : Token, x.kind = .eof → Ended (b ++ [semicolon, x]) := fun x hx =>
    ⟨x, hx, (List.suffix_cons semicolon [x]).trans (List.suffix_append b _)⟩
  obtain ⟨P, hP⟩ : ∃ P, parse (p ++ [e₁]) l = P := ⟨_, rfl⟩
  obtain ⟨B, hB⟩ : ∃ B, parse (b ++ [semicolon, e₂]) P.nextId = B := ⟨_, rfl⟩
  obtain ⟨R, hR⟩ : ∃ R, parse (r ++ [e]) B.nextId = R := ⟨_, rfl⟩
  obtain ⟨hbefore, hclean⟩ := parse_renumbered (Ended.append he₁ p) l i
  obtain ⟨halone, hreports⟩ := parse_renumbered (hends e₂ he₂) P.nextId j
  obtain ⟨hbehind, hreports'⟩ := parse_renumbered (Ended.append he r) B.nextId k
  rw [hP] at hbefore hclean
  rw [hB] at halone hreports
  rw [hR] at hbehind hreports'
  have hwhole : whole = ⟨P.statements ++ (B.statements ++ R.statements), B.faults ++ R.faults, R.nextId⟩ := by
    rw [← parse_between he he₁ he₂ hsemicolon hp hb helse hP (hclean.trans hfaults) hB hR]
    simp [whole]
  rw [hwhole]
  refine ⟨?_, by rw [hreports, hreports']⟩
  rw [List.append_assoc]
  exact List.rel_append hbefore (List.rel_append halone hbehind)

/-- A parenthesis that is left open, between a declaration and a statement with a fault of its own: both
faults are reported, and the declaration and what is left of the other statement are kept. -/
theorem malformed_statement_is_contained_between :
    let p := (tokens "var a = 1;").dropLast
    let b := (tokens "print (a b").dropLast
    let r := (tokens "1 = a;").dropLast
    let semicolon := (tokens ";").headD (.endOfFile 0)
    let whole := parse (p ++ b ++ [semicolon] ++ r ++ [.endOfFile 0]) 7
    (parse (p ++ [.endOfFile 0]) 0).faults = [] ∧ Flat b ∧
      whole.faults = (parse (b ++ [semicolon, .endOfFile 0]) 0).faults ++
        (parse (r ++ [.endOfFile 0]) 0).faults ∧
      (parse (b ++ [semicolon, .endOfFile 0]) 0).faults.length = 1 ∧
      (parse (r ++ [.endOfFile 0]) 0).faults.length = 1 ∧ whole.statements.length = 2 := by
  intro p b r semicolon whole
  have he : (Token.endOfFile 0).kind = .eof := rfl
  have hsemicolon : semicolon.kind = .semicolon := by decide +kernel
  have hp : ∀ t ∈ p, t.kind ≠ .eof := by decide +kernel
  have hfaults : (parse (p ++ [.endOfFile 0]) 0).faults = [] := by decide +kernel
  have hb : Flat b := ⟨by decide +kernel, by decide +kernel⟩
  have helse : ∀ t ∈ b.head?, t.kind ≠ .kwElse := by decide +kernel
  obtain ⟨-, hreports⟩ := malformed_statement_is_contained (r := r) he he he hsemicolon hp hb helse 0 0 0 7 hfaults
  exact ⟨hfaults, hb, hreports, by decide +kernel, by decide +kernel, by decide +kernel⟩

end LoxLang
