import LoxLang.Proofs.Syntax.Seam

/-!
Each rule of the grammar does the same on both sides of a seam. The rule on the first list gets a number that
bounds the tokens left there, the rule on the second list that number and the extra of the seam.
-/

namespace LoxLang

namespace Seam

open LoxLang.Parser (Advances)

variable {K : Seam}

/-- On up to `m` tokens, `q` does the same as `p`, which may peek. -/
def FollowsExpr (K : Seam) (m : Nat) (p q : Parser Expr) : Prop :=
  ∀ s : Parser.State, s.rest.length ≤ m → K.Follows true 0 s p q K.move.expr

namespace Follows

/-! ### Expressions -/

section Expressions

variable {s : Parser.State} {p q : Parser Expr} {m : Nat}

/-- Operators whose expressions are moved part by part. -/
def Moves (K : Seam) (choose : TokenKind → Option (Expr → Position → Expr → Expr)) : Prop :=
  choose .eof = none ∧ ∀ kind join, choose kind = some join → ∀ l position r,
    K.move.expr (join l position r) = join (K.move.expr l) (K.move.place position) (K.move.expr r)

theorem chainFrom {choose : TokenKind → Option (Expr → Position → Expr → Expr)}
    (hmoves : Moves K choose) (hp : K.FollowsExpr m p q) (n : Nat) {left : Expr}
    (hn : s.rest.length ≤ n) (hm : s.rest.length ≤ m) :
    K.Follows true 0 s (Parser.chainFrom choose p n left)
      (Parser.chainFrom choose q (n + K.extra) (K.move.expr left)) K.move.expr := by
  induction n generalizing s left with
  | zero => exact of_nil (Parser.nil_of_length hn) ⟨.refl, Nat.le_refl _⟩
  | succ n ih =>
    rw [Nat.add_right_comm]
    refine choice (d := 0) hmoves.1 (.inl rfl) (Nat.zero_le _) (pure rfl) fun join t s₁ hjoin h₁ => ?_
    refine (hp s₁ (by omega)).bind fun right s₂ h₂ => ?_
    have hnext : K.Follows true 0 s₂ (Parser.chainFrom choose p n (join left t.position right)) _ _ :=
      ih (by omega) (by omega)
    rw [hmoves.2 _ _ hjoin] at hnext
    exact hnext

theorem chain {choose : TokenKind → Option (Expr → Position → Expr → Expr)}
    (hmoves : Moves K choose) (hp : K.FollowsExpr m p q) :
    K.FollowsExpr m (Parser.chain m choose p) (Parser.chain (m + K.extra) choose q) := fun s hs =>
  (hp s hs).bind fun _ _ h => chainFrom hmoves hp m (by omega) (by omega)

theorem unary (hp : K.FollowsExpr m p q) (n : Nat) (hn : s.rest.length ≤ n) (hm : s.rest.length ≤ m) :
    K.Follows true 0 s (Parser.unary p n) (Parser.unary q (n + K.extra)) K.move.expr := by
  induction n generalizing s with
  | zero =>
    have hnil := Parser.nil_of_length hn
    exact of_nil hnil (hp s hm).advances
  | succ n ih =>
    rw [Nat.add_right_comm]
    refine choice (d := 0) rfl (.inl rfl) (Nat.zero_le _) (hp s hm) fun op t s₁ _ h₁ => ?_
    exact (ih (by omega) (by omega)).bind fun _ _ _ => pure rfl

theorem argumentsFrom (hp : K.FollowsExpr m p q) (n count : Nat) (hn : s.rest.length ≤ n)
    (hm : s.rest.length ≤ m) : K.Follows true 0 s (Parser.argumentsFrom p n count)
      (Parser.argumentsFrom q (n + K.extra) count) K.move.exprs := by
  induction n generalizing s count with
  | zero => exact of_nil (Parser.nil_of_length hn) ⟨.refl, Nat.le_refl _⟩
  | succ n ih =>
    rw [Nat.add_right_comm]
    refine (checkArity _ _).bind fun _ s₀ h₀ => ?_
    refine (hp s₀ (by omega)).bind fun e s₁ h₁ => ?_
    refine accepted (d := 0) (by decide) (.inl rfl) (Nat.zero_le _) (pure rfl) fun s₂ h₂ => ?_
    exact (ih (count + 1) (by omega) (by omega)).bind fun _ _ _ => pure rfl

theorem arguments (hp : K.FollowsExpr m p q) {n : Nat} (hn : s.rest.length ≤ n)
    (hm : s.rest.length ≤ m) : K.Follows true 0 s (Parser.arguments n p)
      (Parser.arguments (n + K.extra) q) K.move.exprs := by
  refine checked fun b _ => ?_
  cases b with
  | true => exact pure rfl
  | false => exact argumentsFrom hp n 0 hn hm

theorem finishCall (hp : K.FollowsExpr m p q) {n : Nat} (hn : s.rest.length ≤ n)
    (hm : s.rest.length ≤ m) (callee : Expr) : K.Follows true 0 s (Parser.finishCall n p callee)
      (Parser.finishCall (n + K.extra) q (K.move.expr callee)) K.move.expr :=
  (arguments hp hn hm).bind fun _ _ _ => (expect (by decide) _).bind fun _ _ _ => pure rfl

theorem postfixes (hp : K.FollowsExpr m p q) (n : Nat) (e : Expr) (hn : s.rest.length ≤ n)
    (hm : s.rest.length ≤ m + 1) : K.Follows true 0 s (Parser.postfixes p n e)
      (Parser.postfixes q (n + K.extra) (K.move.expr e)) K.move.expr := by
  induction n generalizing s e with
  | zero => exact of_nil (Parser.nil_of_length hn) ⟨.refl, Nat.le_refl _⟩
  | succ n ih =>
    rw [Nat.add_right_comm]
    refine accepted (d := 0) (by decide) (.inl rfl) (Nat.zero_le _) ?_ fun s₁ h₁ => ?_
    · refine accepted (d := 0) (by decide) (.inl rfl) (Nat.zero_le _) (pure rfl) fun s₁ h₁ => ?_
      refine (identifier _).bind fun name s₂ h₂ => ?_
      exact ih (.get e name) (by omega) (by omega)
    · refine (finishCall hp (by omega) (by omega) e).bind fun e' s₂ h₂ => ?_
      exact ih e' (by omega) (by omega)

theorem primary (hp : K.FollowsExpr m p q) :
    K.FollowsExpr (m + 1) (Parser.primary p) (Parser.primary q) := by
  intro s hs
  refine choice (d := 0) rfl (.inl rfl) (Nat.zero_le _) (failHere _) fun lead t s₁ _ h₁ => ?_
  cases lead with
  | constant value => exact pure rfl
  | literal => exact pure rfl
  | super =>
    refine (expect (by decide) _).bind fun _ s₂ _ => ?_
    refine (identifier _).bind fun method s₃ _ => ?_
    exact freshId.bind fun id s₄ _ => pure rfl
  | this => exact freshId.bind fun id s₂ _ => pure rfl
  | name => exact (reference ⟨t.lexeme, t.position⟩).bind fun r s₂ _ => pure rfl
  | paren =>
    refine (hp s₁ (by omega)).bind fun inner s₂ _ => ?_
    exact (expect (by decide) _).bind fun _ s₃ _ => pure rfl

theorem operand (hp : K.FollowsExpr m p q) :
    K.FollowsExpr (m + 1) (Parser.operand (m + 1) p) (Parser.operand (m + 1 + K.extra) q) := fun _ hs =>
  unary (fun s₁ h₁ => (primary hp s₁ h₁).bind fun e _ h₂ =>
    postfixes hp (m + 1) e (by omega) (by omega)) (m + 1) hs hs

theorem binary_moves {tier : TokenKind → Option BinaryOp} (heof : tier .eof = none) :
    Moves K fun k => (tier k).map fun op l p r => .binary l op p r := by
  refine ⟨by simp [heof], ?_⟩
  rintro kind join hjoin l position r
  obtain ⟨op, _, rfl⟩ := Option.map_eq_some_iff.mp hjoin
  rfl

theorem logical_moves {kind : TokenKind} (op : LogicalOp) (heof : kind ≠ .eof) :
    Moves K fun k => if k = kind then some fun l _ r => .logical l op r else none := by
  refine ⟨by simp [heof.symm], ?_⟩
  intro k join hjoin l position r
  obtain ⟨_, hjoin⟩ := Option.ite_none_right_eq_some.mp hjoin
  cases hjoin
  rfl

theorem binary (hp : K.FollowsExpr m p q) :
    K.FollowsExpr (m + 1) (Parser.binary (m + 1) p) (Parser.binary (m + 1 + K.extra) q) := by
  have hall : ∀ tiers : List (TokenKind → Option BinaryOp), (∀ tier ∈ tiers, tier .eof = none) →
      K.FollowsExpr (m + 1)
        (tiers.foldr (fun tier operand => Parser.chain (m + 1)
          (fun k => (tier k).map fun op l p r => .binary l op p r) operand) (Parser.operand (m + 1) p))
        (tiers.foldr (fun tier operand => Parser.chain (m + 1 + K.extra)
          (fun k => (tier k).map fun op l p r => .binary l op p r) operand)
          (Parser.operand (m + 1 + K.extra) q)) := by
    intro tiers htiers
    induction tiers with
    | nil => exact operand hp
    | cons tier rest ih =>
      exact chain (binary_moves (htiers tier List.mem_cons_self))
        (ih fun tier h => htiers tier (List.mem_cons_of_mem _ h))
  exact hall Parser.binaryTiers (by simp [Parser.binaryTiers])

theorem logical (hp : K.FollowsExpr m p q) :
    K.FollowsExpr (m + 1) (Parser.logical (m + 1) p) (Parser.logical (m + 1 + K.extra) q) :=
  chain (logical_moves .or (by decide)) (chain (logical_moves .and (by decide)) (binary hp))

end Expressions

theorem expression (n : Nat) : K.FollowsExpr n (Parser.expression n) (Parser.expression (n + K.extra)) := by
  induction n with
  | zero =>
    intro s hs
    have hfails : K.Follows true 0 s (Parser.expression 0) (Parser.expression 0) K.move.expr := failHere _
    exact of_nil (Parser.nil_of_length hs) hfails.advances
  | succ n ih =>
    intro s hs
    have hlogical := logical ih s hs
    rw [Nat.add_right_comm] at hlogical ⊢
    refine hlogical.bind fun target s₁ h₁ => ?_
    refine choice (d := 0) (by simp) (.inl rfl) (Nat.zero_le _) (pure rfl) fun _ equals s₂ _ h₂ => ?_
    refine (ih s₂ (by omega)).bind fun value s₃ h₃ => ?_
    have hother : ∀ e : Expr, K.Follows true 0 s₃
        (do
          Parser.report equals.position .invalidAssignmentTarget
          return e)
        (do
          Parser.report (K.move.token equals).position .invalidAssignmentTarget
          return K.move.expr e) K.move.expr := fun e =>
      (report _ fun _ _ _ => rfl).bind fun _ _ _ => pure rfl
    cases target with
    | read r => exact (reference r.ident).bind fun r' s₄ _ => pure rfl
    | get object property => exact pure rfl
    | _ => exact hother _

end Follows

/-! ### Statements -/

/-- On up to `m` tokens, `q` does the same as `p`, which consumes a token and does not peek. -/
def FollowsStmt (K : Seam) (m : Nat) (p q : Parser Stmt) : Prop :=
  ∀ s : Parser.State, s.rest.length ≤ m → K.Follows false 1 s p q K.move.stmt

@[inherit_doc FollowsStmt]
def FollowsBody (K : Seam) (m : Nat) (p q : Parser (List Stmt)) : Prop :=
  ∀ s : Parser.State, s.rest.length ≤ m → K.Follows false 1 s p q K.move.stmts

/-- What stands behind the seam does not go on with a statement that ended in front of it. -/
def NoElse (K : Seam) : Prop :=
  ∀ t ts, K.tail' = t :: ts → t.kind ≠ .kwElse

namespace Follows

section Statements

variable {s : Parser.State} {p q : Parser Stmt} {b b' : Parser (List Stmt)} {m n : Nat}

theorem expressionUnless (hn : s.rest.length ≤ n) (kind : TokenKind) :
    K.Follows true 0 s (Parser.expressionUnless n kind) (Parser.expressionUnless (n + K.extra) kind)
      (Option.map K.move.expr) := by
  refine checked fun here _ => ?_
  cases here with
  | true => exact pure rfl
  | false => exact (expression n s hn).bind fun _ _ _ => pure rfl

theorem initializer (hn : s.rest.length ≤ n) :
    K.Follows true 0 s (Parser.initializer n) (Parser.initializer (n + K.extra))
      (Option.map K.move.expr) := by
  refine accepted (d := 0) (by decide) (.inl rfl) (Nat.zero_le _) (pure rfl) fun s₁ h₁ => ?_
  exact (expression n s₁ (by omega)).bind fun _ _ _ => pure rfl

/-- A rule that ends with a token of some kind. -/
theorem ended {α β α' β' : Type} {p : Parser α} {q : Parser β} {φ : α → β} {φ' : α' → β'}
    {f : α → Parser α'} {g : β → Parser β'} {kind : TokenKind} {what : String}
    (hp : K.Follows true 0 s p q φ) (heof : kind ≠ .eof)
    (hf : ∀ a s', s'.rest.length + 1 ≤ s.rest.length → K.Follows false 0 s' (f a) (g (φ a)) φ') :
    K.Follows false 1 s (p >>= fun a => Parser.expect kind what >>= fun _ => f a)
      (q >>= fun a => Parser.expect kind what >>= fun _ => g a) φ' :=
  hp.bind_end fun a s₁ h₁ => (expect heof what).bind_first fun _ s₂ h₂ => hf a s₂ (by omega)

theorem varDeclaration (hn : s.rest.length ≤ n) :
    K.Follows false 1 s (Parser.varDeclaration n) (Parser.varDeclaration (n + K.extra)) K.move.stmt :=
  (identifier _).bind fun _ _ h₁ =>
    (initializer (by omega)).ended (by decide) fun _ _ _ => pure rfl

theorem expressionStatement (hn : s.rest.length ≤ n) : K.Follows false 1 s (Parser.expressionStatement n)
    (Parser.expressionStatement (n + K.extra)) K.move.stmt :=
  (expression n s hn).ended (by decide) fun _ _ _ => pure rfl

theorem printStatement (hn : s.rest.length ≤ n) : K.Follows false 1 s (Parser.printStatement n)
    (Parser.printStatement (n + K.extra)) K.move.stmt :=
  (expression n s hn).ended (by decide) fun _ _ _ => pure rfl

theorem returnStatement (hn : s.rest.length ≤ n) (keyword : Token) :
    K.Follows false 1 s (Parser.returnStatement n keyword)
      (Parser.returnStatement (n + K.extra) (K.move.token keyword)) K.move.stmt :=
  (expressionUnless hn _).ended (by decide) fun _ _ _ => pure rfl

/-- Only this rule looks at the token behind it. -/
theorem ifStatement (helse : K.NoElse) (hp : K.FollowsStmt m p q) (hn : s.rest.length ≤ n)
    (hm : s.rest.length ≤ m) : K.Follows false 1 s (Parser.ifStatement n p)
      (Parser.ifStatement (n + K.extra) q) K.move.stmt := by
  refine (expect (by decide) _).bind_first fun _ s₁ h₁ => ?_
  refine ((expression n s₁ (by omega)).ended (by decide) fun condition s₂ h₂ => ?_).weaken
    (fun h => h) (Nat.zero_le 1)
  refine (hp s₂ (by omega)).bind fun thenBranch s₃ h₃ => ?_
  refine accepted (d := 0) (by decide) (.inr (.inr helse)) (Nat.zero_le _) (pure rfl) fun s₄ h₄ => ?_
  exact ((hp s₄ (by omega)).bind fun _ _ _ => pure rfl)

theorem whileStatement (hp : K.FollowsStmt m p q) (hn : s.rest.length ≤ n) (hm : s.rest.length ≤ m) :
    K.Follows false 1 s (Parser.whileStatement n p) (Parser.whileStatement (n + K.extra) q)
      K.move.stmt := by
  refine (expect (by decide) _).bind_first fun _ s₁ h₁ => ?_
  refine ((expression n s₁ (by omega)).ended (by decide) fun condition s₂ h₂ => ?_).weaken
    (fun h => h) (Nat.zero_le 1)
  exact (hp s₂ (by omega)).bind fun body s₃ h₃ => pure rfl

theorem forInitializer (hn : s.rest.length ≤ n) :
    K.Follows false 1 s (Parser.forInitializer n) (Parser.forInitializer (n + K.extra))
      (Option.map K.move.stmt) := by
  refine accepted (d := 0) (by decide) (.inr (.inl Nat.one_pos)) (Nat.le_refl 1) ?_ fun _ _ => pure rfl
  refine accepted (d := 1) (by decide) (.inr (.inl Nat.one_pos)) (by decide) ?_ fun s₁ h₁ => ?_
  · exact (expressionStatement hn).bind_first fun _ _ _ => pure rfl
  · exact (varDeclaration (by omega)).bind_first fun _ _ _ => pure rfl

theorem forStatement (hp : K.FollowsStmt m p q) (hn : s.rest.length ≤ n) (hm : s.rest.length ≤ m) :
    K.Follows false 1 s (Parser.forStatement n p) (Parser.forStatement (n + K.extra) q)
      K.move.stmt := by
  refine (expect (by decide) _).bind_first fun _ s₁ h₁ => ?_
  refine (forInitializer (by omega)).bind fun initializer s₂ h₂ => ?_
  refine ((expressionUnless (by omega) _).ended (by decide) fun condition s₃ h₃ => ?_).weaken
    (fun h => h) (Nat.zero_le 1)
  refine ((expressionUnless (by omega) _).ended (by decide) fun increment s₄ h₄ => ?_).weaken
    (fun h => h) (Nat.zero_le 1)
  refine (hp s₄ (by omega)).bind fun body s₅ h₅ => ?_
  cases initializer with
  | none => cases condition <;> exact pure rfl
  | some stmt => cases condition <;> exact pure rfl

theorem statementWith (helse : K.NoElse) (hp : K.FollowsStmt m p q) (hb : K.FollowsBody m b b')
    (hn : s.rest.length ≤ n) (hm : s.rest.length ≤ m + 1) :
    K.Follows false 1 s (Parser.statementWith n p b) (Parser.statementWith (n + K.extra) q b')
      K.move.stmt := by
  refine choice (d := 1) rfl (.inr (.inl Nat.one_pos)) (by decide) (expressionStatement hn)
    fun lead t s₁ _ h₁ => ?_
  cases lead with
  | «for» => exact forStatement hp (by omega) (by omega)
  | «if» => exact ifStatement helse hp (by omega) (by omega)
  | «while» => exact whileStatement hp (by omega) (by omega)
  | «return» => exact returnStatement (by omega) t
  | «break» => exact (expect (by decide) _).bind_first fun _ _ _ => pure rfl
  | «continue» => exact (expect (by decide) _).bind_first fun _ _ _ => pure rfl
  | block => exact (hb s₁ (by omega)).bind_first fun _ _ _ => pure rfl
  | print => exact printStatement (by omega)

/-! ### Declarations -/

theorem parametersFrom (n count : Nat) (hn : s.rest.length ≤ n) :
    K.Follows true 0 s (Parser.parametersFrom n count) (Parser.parametersFrom (n + K.extra) count)
      (List.map K.move.ident) := by
  induction n generalizing s count with
  | zero => exact of_nil (Parser.nil_of_length hn) ⟨.refl, Nat.le_refl _⟩
  | succ n ih =>
    rw [Nat.add_right_comm]
    refine (checkArity _ _).bind fun _ s₀ h₀ => ?_
    refine (identifier _).bind fun parameter s₁ h₁ => ?_
    refine accepted (d := 0) (by decide) (.inl rfl) (Nat.zero_le _) (pure rfl) fun s₂ h₂ => ?_
    exact (ih (count + 1) (by omega)).bind fun _ _ _ => pure rfl

theorem parameters (hn : s.rest.length ≤ n) :
    K.Follows true 0 s (Parser.parameters n) (Parser.parameters (n + K.extra))
      (List.map K.move.ident) := by
  refine checked fun here _ => ?_
  cases here with
  | true => exact pure rfl
  | false => exact parametersFrom n 0 hn

theorem function (hb : K.FollowsBody m b b') (kind : String) (hn : s.rest.length ≤ n + 1)
    (hm : s.rest.length ≤ m + 1) : K.Follows false 1 s (Parser.function n b kind)
      (Parser.function (n + K.extra) b' kind) K.move.function := by
  refine (identifier _).bind fun name s₁ h₁ => ?_
  refine (expect (by decide) _).bind fun _ s₂ h₂ => ?_
  refine (parameters (by omega)).ended (by decide) fun names s₃ h₃ => ?_
  refine ((expect (by decide) _).bind fun _ s₄ h₄ => ?_)
  refine ((hb s₄ (by omega)).bind fun body s₅ h₅ => ?_)
  exact freshId.bind fun id s₆ _ => pure rfl

theorem methodsFrom (hb : K.FollowsBody m b b') (n : Nat) (hn : s.rest.length ≤ n)
    (hm : s.rest.length ≤ m) : K.Follows true 0 s (Parser.methodsFrom b n)
      (Parser.methodsFrom b' (n + K.extra)) K.move.functions := by
  induction n generalizing s with
  | zero => exact of_nil (Parser.nil_of_length hn) ⟨.refl, Nat.le_refl _⟩
  | succ n ih =>
    rw [Nat.add_right_comm]
    refine checked fun closed _ => checked fun atEnd _ => ?_
    cases closed || atEnd with
    | true => exact pure rfl
    | false =>
      refine ((function hb "method" hn (by omega)).weaken (fun _ => rfl) (Nat.le_refl 1)).bind
        fun d s₁ h₁ => ?_
      exact (ih (by omega) (by omega)).bind fun _ _ _ => pure rfl

theorem superclass : K.Follows true 0 s Parser.superclass Parser.superclass
    (Option.map K.move.reference) := by
  refine accepted (d := 0) (by decide) (.inl rfl) (Nat.zero_le _) (pure rfl) fun s₁ h₁ => ?_
  refine (identifier _).bind fun name s₂ h₂ => ?_
  exact (reference name).bind fun r s₃ _ => pure rfl

theorem classDeclaration (hb : K.FollowsBody m b b') (hn : s.rest.length ≤ n)
    (hm : s.rest.length ≤ m) : K.Follows false 1 s (Parser.classDeclaration n b)
      (Parser.classDeclaration (n + K.extra) b') K.move.stmt := by
  refine (identifier _).bind fun name s₁ h₁ => ?_
  refine superclass.ended (by decide) fun parent s₂ h₂ => ?_
  refine ((methodsFrom hb n (by omega) (by omega)).ended (by decide) fun methods s₃ h₃ => ?_).weaken
    (fun h => h) (Nat.zero_le 1)
  exact pure rfl

theorem skipToBoundary_map (v : Move) (last : TokenKind) (ts : List Token) :
    Parser.skipToBoundary last (ts.map v.token) = (Parser.skipToBoundary last ts).map v.token := by
  induction ts generalizing last with
  | nil => rfl
  | cons t rest ih =>
    have hkind : (v.token t).kind = t.kind := rfl
    simp only [List.map_cons, Parser.skipToBoundary, hkind]
    split
    · rfl
    · exact ih t.kind

theorem afterFault_map (v : Move) (ts : List Token) :
    Parser.afterFault (ts.map v.token) = (Parser.afterFault ts).map v.token := by
  cases ts with
  | nil => rfl
  | cons t rest =>
    have hkind : (v.token t).kind = t.kind := rfl
    simp only [List.map_cons, Parser.afterFault, hkind]
    split
    · rfl
    · exact skipToBoundary_map v t.kind rest

/-- After a fault at least one token is skipped. -/
theorem afterFault_length {s s' : Parser.State} (h : Advances s s') (hfront : s.front.kind ≠ .eof) :
    (Parser.afterFault s'.rest).length + 1 ≤ s.rest.length := by
  have hle := (Parser.afterFault_suffix s'.rest).length_le
  by_cases hrest : s'.rest = s.rest
  · rw [hrest]
    cases hs : s.rest with
    | nil => exact absurd (by unfold Parser.State.front; rw [hs]; rfl) hfront
    | cons t rest =>
      have hkind : t.kind ≠ .eof := by
        unfold Parser.State.front at hfront
        rw [hs] at hfront
        exact hfront
      simp only [Parser.afterFault, if_neg hkind, List.length_cons]
      exact Nat.succ_le_succ (Parser.skipToBoundary_suffix t.kind rest).length_le
  · have hshorter := h.rest.length_le
    have hne : s'.rest.length ≠ s.rest.length := fun hlength => hrest (h.rest.eq_of_length hlength)
    omega

theorem recovering (hp : K.Follows false 1 s p q K.move.stmt) (hfront : s.front.kind ≠ .eof) :
    K.Follows false 1 s (Parser.recovering p) (Parser.recovering q) (Option.map K.move.stmt) := by
  have hadvances := hp.advances
  unfold Ends EStateM.run at hadvances
  have hskip : ∀ (e : Diagnostic) (s₁ : Parser.State), Advances s s₁ → Advances s
      { s₁ with rest := Parser.afterFault s₁.rest, faults := s₁.faults.push e } := by
    intro e s₁ h₁
    refine h₁.trans ⟨Parser.afterFault_suffix _, Nat.le_refl _, by simp, ?_⟩
    exact fun t ht hlast => Parser.afterFault_endOfFile ht hlast
  refine ⟨?_, fun t ht => ?_⟩
  · unfold Ends EStateM.run Parser.recovering
    cases hrun : p s with
    | ok stmt s₁ =>
      rw [hrun] at hadvances
      exact hadvances
    | error e s₁ =>
      rw [hrun] at hadvances
      exact ⟨hskip e s₁ hadvances, afterFault_length hadvances hfront⟩
  · have hmatched := hp.matched t ht
    unfold EStateM.run at hmatched ⊢
    unfold Parser.recovering
    cases hrun : p s with
    | ok stmt s₁ =>
      rw [hrun] at hmatched
      intro hsmooth
      obtain ⟨t₁, hq, ht₁⟩ := hmatched hsmooth
      exact ⟨t₁, by rw [hq]; rfl, ht₁⟩
    | error e s₁ =>
      rw [hrun] at hmatched hadvances
      rintro (hsealed | ⟨hfaults, _⟩)
      · obtain ⟨t₁, hq, ht₁⟩ := hmatched hsealed
        refine ⟨{ t₁ with
            rest := Parser.afterFault t₁.rest, faults := t₁.faults.push (K.move.diagnostic e) },
          by rw [hq]; rfl, ?_, ht₁.nextId, ?_, ht.closed_of_advances (hskip e s₁ hadvances)⟩
        · obtain ⟨ts, hs, ht⟩ := ht₁.rest
          refine ⟨Parser.afterFault ts, ?_, ?_⟩
          · rw [hs, hsealed.1, List.append_nil, List.append_nil]
          · rw [ht, hsealed.2, List.append_nil, List.append_nil, afterFault_map]
        · rw [Array.map_push, Array.append_push, ← ht₁.faults]
      · have hfewer := hadvances.faults.length_le
        have hsize := congrArg Array.size hfaults
        simp only [Array.size_push] at hsize
        simp only [Array.length_toList] at hfewer
        omega

theorem declarationWith (helse : K.NoElse) (hp : K.FollowsStmt m p q) (hb : K.FollowsBody m b b')
    (hn : s.rest.length ≤ n) (hm : s.rest.length ≤ m + 1) (hfront : s.front.kind ≠ .eof) :
    K.Follows false 1 s (Parser.declarationWith n p b) (Parser.declarationWith (n + K.extra) q b')
      (Option.map K.move.stmt) := by
  refine recovering ?_ hfront
  refine choice (d := 1) rfl (.inr (.inl Nat.one_pos)) (by decide) (statementWith helse hp hb hn hm)
    fun lead t s₁ _ h₁ => ?_
  cases lead with
  | kwClass => exact classDeclaration hb (by omega) (by omega)
  | kwFun => exact (function hb "function" (by omega) (by omega)).bind_first fun _ _ _ => pure rfl
  | kwVar => exact varDeclaration (by omega)

end Statements

section Declarations

variable {s : Parser.State} {p q : Parser (Option Stmt)} {m : Nat}

theorem declarationsFrom (hp : ∀ s : Parser.State, s.rest.length ≤ m → s.front.kind ≠ .eof →
      K.Follows false 1 s p q (Option.map K.move.stmt)) (n : Nat) (hn : s.rest.length ≤ n)
    (hm : s.rest.length ≤ m) : K.Follows true 0 s (Parser.declarationsFrom p n)
      (Parser.declarationsFrom q (n + K.extra)) K.move.stmts := by
  induction n generalizing s with
  | zero => exact of_nil (Parser.nil_of_length hn) ⟨.refl, Nat.le_refl _⟩
  | succ n ih =>
    rw [Nat.add_right_comm]
    refine checked fun closed _ => checked fun atEnd hend => ?_
    cases atEnd with
    | true => rw [Bool.or_true]; exact pure rfl
    | false =>
      cases closed with
      | true => exact pure rfl
      | false =>
        have hfront : s.front.kind ≠ .eof := fun h => by rw [h] at hend; cases hend
        refine ((hp s hm hfront).weaken (fun _ => rfl) (Nat.le_refl 1)).bind fun stmt? s₁ h₁ => ?_
        refine (ih (by omega) (by omega)).bind fun rest s₂ h₂ => ?_
        exact pure (K.move.stmts_toList _ _)

theorem blockWith (hp : ∀ s : Parser.State, s.rest.length ≤ m → s.front.kind ≠ .eof →
      K.Follows false 1 s p q (Option.map K.move.stmt)) :
    K.FollowsBody m (Parser.blockWith m p) (Parser.blockWith (m + K.extra) q) := fun _ hs =>
  (declarationsFrom hp m hs hs).ended (by decide) fun _ _ _ => pure rfl

end Declarations

theorem statement_block (helse : K.NoElse) (n : Nat) :
    K.FollowsStmt n (Parser.statement n) (Parser.statement (n + K.extra)) ∧
      K.FollowsBody n (Parser.block n) (Parser.block (n + K.extra)) := by
  induction n with
  | zero =>
    have hstmt : ∀ s, K.Follows false 1 s (Parser.statement 0) (Parser.statement 0) K.move.stmt :=
      fun _ => failHere _
    have hbody : ∀ s, K.Follows false 1 s (Parser.block 0) (Parser.block 0) K.move.stmts :=
      fun _ => failHere _
    exact ⟨fun s hs => of_nil (Parser.nil_of_length hs) (hstmt s).advances,
      fun s hs => of_nil (Parser.nil_of_length hs) (hbody s).advances⟩
  | succ n ih =>
    rw [Nat.add_right_comm]
    refine ⟨fun s hs => ?_, fun s hs => ?_⟩
    · have hstmt := statementWith helse ih.1 ih.2 hs hs
      rw [Nat.add_right_comm] at hstmt
      exact hstmt
    · have hbody := blockWith (fun _ h => declarationWith helse ih.1 ih.2 h h) s hs
      rw [Nat.add_right_comm] at hbody
      exact hbody

theorem declaration (helse : K.NoElse) (n : Nat) {s : Parser.State} (hs : s.rest.length ≤ n)
    (hfront : s.front.kind ≠ .eof) : K.Follows false 1 s (Parser.declaration n)
      (Parser.declaration (n + K.extra)) (Option.map K.move.stmt) :=
  declarationWith helse (statement_block helse n).1 (statement_block helse n).2 hs (by omega) hfront

end Follows

end Seam

end LoxLang
