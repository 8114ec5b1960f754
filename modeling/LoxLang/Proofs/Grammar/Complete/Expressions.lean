import LoxLang.Proofs.Grammar.Derivations
import LoxLang.Proofs.Grammar.Makes
import LoxLang.Proofs.Syntax.Alike

/-!
What belongs to the grammar is read without a fault, and as the tree of its derivation but for the identities
of the nodes. Each part of a program is read with any tokens behind it that do not go on with it. The
operators of a chain are found one by one from the left, and so are the calls behind an operand, so what is
said of them is how reading goes on behind a part of the chain.
-/

namespace LoxLang

namespace Grammar

open LoxLang.Parser (Makes)

/-! ### Trees -/

theorem alike_ident (x : Ident) : x.Alike Skew.renumbering x := ⟨rfl, rfl⟩

theorem alike_idents (xs : List Ident) : List.Forall₂ (Ident.Alike Skew.renumbering) xs xs :=
  List.forall₂_same.mpr fun x _ => alike_ident x

theorem Join.Node.alike {f : Join} (h : f.Node) {l l' r r' : Expr} (p : Position)
    (hl : l.Alike Skew.renumbering l') (hr : r.Alike Skew.renumbering r') :
    (f l p r).Alike Skew.renumbering (f l' p r') := by
  cases h with
  | binary op => exact .binary op hl rfl hr
  | logical op => exact .logical op hl hr

/-! ### What stands behind an expression -/

/-- The tokens go on with neither a call nor an operator of the tiers. -/
def Stops (T : List Tier) (rest : List Token) : Prop :=
  Begins (fun k => k ≠ .leftParen ∧ k ≠ .dot ∧ ∀ tier ∈ T, ∀ j ∈ tier, k ≠ j.1) rest

/-- The tokens that can stand behind an expression. -/
def Closed (rest : List Token) : Prop :=
  Begins (fun k => k = .rightParen ∨ k = .comma ∨ k = .semicolon) rest

section Behind

variable {T : List Tier} {tier : Tier} {rest : List Token} {t : Token}

theorem Stops.tail (h : Stops (tier :: T) rest) : Stops T rest :=
  h.imp fun _ ⟨hparen, hdot, hT⟩ => ⟨hparen, hdot, fun tier' h' => hT tier' (List.mem_cons_of_mem _ h')⟩

theorem stops_of_mem {kind : TokenKind} (h : kind ∈ [.equal, .rightParen, .comma, .semicolon])
    (ht : t.kind = kind) : Stops tiers (t :: rest) := by
  apply begins_cons.mpr
  rw [ht]
  refine ⟨?_, ?_, fun tier htier j hj hkind => ?_⟩
  · rintro rfl
    simp at h
  · rintro rfl
    simp at h
  · refine tiers_ne tier htier j hj ?_
    rw [← hkind]
    exact List.mem_cons_of_mem _ (List.mem_cons_of_mem _ h)

theorem Closed.stops (h : Closed rest) : Stops tiers rest := by
  obtain ⟨t, us, rfl, h | h | h⟩ := h <;> exact stops_of_mem (by simp) h

/-- An operator is none of a stronger tier. -/
theorem stops_of_operator (hT : (tier :: T) <:+ tiers) {f : Join} (h : (t.kind, f) ∈ tier) :
    Stops T (t :: rest) := by
  have hne := tiers_ne tier (hT.subset List.mem_cons_self) _ h
  simp only [List.mem_cons, not_or] at hne
  have hapart := List.pairwise_cons.mp (tiers_apart.sublist hT.sublist)
  apply begins_cons.mpr
  exact ⟨hne.1, hne.2.1, fun tier' h' j hj => hapart.1 tier' h' _ h j hj⟩

end Behind

/-! ### Expressions -/

/-- Reading yields the tree, but for the identities of its nodes. -/
def MakesExpr (x : Parser Expr) (before : List Token) (e : Expr) (rest : List Token) : Prop :=
  Makes x before (e.Alike Skew.renumbering) rest

/-- The rule for operands of some tiers, as it is used on up to `n + 1` tokens. -/
def chains (n : Nat) (cs : List (TokenKind → Option Join)) : Parser Expr :=
  cs.foldr (Parser.chain (n + 1)) (Parser.operand (n + 1) (Parser.expression n))

/-- What is left to do of a chain behind some of its operands. -/
def chainsFrom (n : Nat) : List (TokenKind → Option Join) → Nat → Expr → Parser Expr
  | [], _, e => pure e
  | c :: cs, k, e => Parser.chainFrom c (chains n cs) k e

/-- The rule for operands without operators, as it is used on up to `n + 1` tokens. -/
def calls (n : Nat) : Parser Expr := do
  Parser.postfixes (Parser.expression n) (n + 1) (← Parser.primary (Parser.expression n))

def ExpressionMade (ts : List Token) (e : Expr) : Prop :=
  ∀ (n : Nat) (rest : List Token), (ts ++ rest).length ≤ n → Closed rest →
    MakesExpr (Parser.expression n) (ts ++ rest) e rest

/-- Behind the chain, reading goes on with it at the next operator of the weakest tier. -/
def ChainMade (T : List Tier) (ts : List Token) (e : Expr) : Prop :=
  ∀ (n : Nat) (cs : List (TokenKind → Option Join)) (rest rest' : List Token) (good : Expr → Prop),
    (ts ++ rest).length ≤ n + 1 → List.Forall₂ Offers cs T → T <:+ tiers → Stops T.tail rest →
      (∀ k e', rest.length ≤ k → e.Alike Skew.renumbering e' → Makes (chainsFrom n cs k e') rest good rest') →
        Makes (chains n cs) (ts ++ rest) good rest'

def UnaryMade (ts : List Token) (e : Expr) : Prop :=
  ∀ (n k : Nat) (rest : List Token), (ts ++ rest).length ≤ n + 1 → (ts ++ rest).length ≤ k →
    Stops [] rest → MakesExpr (Parser.unary (calls n) k) (ts ++ rest) e rest

/-- Behind the call, reading goes on with what may be called or accessed. -/
def CallMade (ts : List Token) (e : Expr) : Prop :=
  ∀ (n : Nat) (rest rest' : List Token) (good : Expr → Prop), (ts ++ rest).length ≤ n + 1 →
    (∀ k e', rest.length ≤ k → e.Alike Skew.renumbering e' →
      Makes (Parser.postfixes (Parser.expression n) k e') rest good rest') →
        Makes (calls n) (ts ++ rest) good rest'

def PrimaryMade (ts : List Token) (e : Expr) : Prop :=
  ∀ (n : Nat) (rest : List Token), (ts ++ rest).length ≤ n + 1 →
    MakesExpr (Parser.primary (Parser.expression n)) (ts ++ rest) e rest

def ArgumentListMade (ts : List Token) (es : List Expr) : Prop :=
  ∀ (n k : Nat) (rest : List Token), (ts ++ rest).length ≤ n → (ts ++ rest).length ≤ k →
    es.length ≤ maxList → Begins (· = .rightParen) rest →
      Makes (Parser.arguments k (Parser.expression n)) (ts ++ rest)
        (List.Forall₂ (Expr.Alike Skew.renumbering) es) rest

def ArgumentsMade (ts : List Token) (es : List Expr) : Prop :=
  ∀ (n k count : Nat) (rest : List Token), (ts ++ rest).length ≤ n → (ts ++ rest).length ≤ k →
    count + es.length ≤ maxList → Begins (· = .rightParen) rest →
      Makes (Parser.argumentsFrom (Parser.expression n) k count) (ts ++ rest)
        (List.Forall₂ (Expr.Alike Skew.renumbering) es) rest

section Chains

variable {T : List Tier} {tier : Tier} {ts left right rest : List Token} {op : Token} {e l r : Expr} {f : Join}

/-- A chain is read as a whole if nothing behind it goes on with it. -/
theorem ChainMade.whole (h : ChainMade T ts e) {n : Nat} {cs : List (TokenKind → Option Join)}
    (hn : (ts ++ rest).length ≤ n + 1) (hcs : List.Forall₂ Offers cs T) (hT : T <:+ tiers)
    (hstops : Stops T rest) : MakesExpr (chains n cs) (ts ++ rest) e rest := by
  cases hcs with
  | nil => exact h n [] rest rest _ hn .nil hT hstops fun _ _ _ he => .pure he
  | cons hoffers hcs =>
    apply h n _ rest rest _ hn (.cons hoffers hcs) hT hstops.tail
    intro k e' _ he
    cases k with
    | zero => exact .pure he
    | succ k =>
      obtain ⟨t, us, rfl, _, _, hne⟩ := hstops
      apply Makes.passed (hoffers.none (hne _ List.mem_cons_self))
      exact .pure he

theorem ChainMade.operand (h : UnaryMade ts e) : ChainMade [] ts e := by
  intro n cs rest rest' good hn hcs _ hstops hnext
  cases hcs
  have hread : Makes (Parser.unary (calls n) (n + 1) >>= pure) (ts ++ rest) good rest' := by
    apply (h n (n + 1) rest hn hn hstops).bind
    intro e' he
    exact hnext (n + 1) e' (by rw [List.length_append] at hn; omega) he
  rwa [bind_pure] at hread

theorem ChainMade.single (h : ChainMade T ts e) : ChainMade (tier :: T) ts e := by
  intro n cs rest rest' good hn hcs hT hstops hnext
  cases hcs with
  | cons hoffers hcs =>
    apply (h.whole hn hcs ((List.suffix_cons _ _).trans hT) hstops).bind
    intro e' he
    exact hnext (n + 1) e' (by rw [List.length_append] at hn; omega) he

theorem ChainMade.join (hl : ChainMade (tier :: T) left l) (hf : (op.kind, f) ∈ tier)
    (hr : ChainMade T right r) : ChainMade (tier :: T) (left ++ op :: right) (f l op.position r) := by
  intro n cs rest rest' good hn hcs hT hstops hnext
  rw [List.append_assoc] at hn ⊢
  -- The left part is followed by an operator of its own tier, at which only the stronger tiers stop.
  apply hl n cs _ rest' good hn hcs hT (stops_of_operator hT hf)
  intro k l' hk hl'
  cases hcs with
  | cons hoffers hcs =>
    cases k with
    | zero => cases hk
    | succ k =>
      simp only [List.length_append, List.cons_append, List.length_cons] at hn hk
      apply Makes.chosen ((hoffers.iff _ _).mpr hf)
      apply (hr.whole _ hcs ((List.suffix_cons _ _).trans hT) hstops).bind
      · intro r' hr'
        apply hnext k _ (by omega)
        exact (tiers_node _ (hT.subset List.mem_cons_self) _ hf).alike op.position hl' hr'
      · rw [List.length_append]
        omega

end Chains

section Operands

variable {ts object callee : List Token} {t opening closing dot property comma equals : Token} {e o f : Expr}
  {es : List Expr} {rest : List Token}

theorem UnaryMade.apply {op : Token} {u : UnaryOp} (hop : (op.kind, u) ∈ unaryOperators)
    (h : UnaryMade ts e) : UnaryMade (op :: ts) (.unary u op.position e) := by
  intro n k rest hn hk hstops
  cases k with
  | zero => cases hk
  | succ k =>
    simp only [List.cons_append, List.length_cons] at hn hk
    apply Makes.chosen (Parser.unaryOp?_iff.mpr hop)
    apply (h n k rest (by omega) (by omega) hstops).bind
    intro e' he
    exact .pure (.unary u rfl he)

theorem CallMade.unary (h : CallMade ts e) (hbegins : Begins (Parser.operandWord ·) ts) :
    UnaryMade ts e := by
  intro n k rest hn _ hstops
  have hcall : MakesExpr (calls n) (ts ++ rest) e rest := by
    apply h n rest rest _ hn
    intro k' e' _ he
    cases k' with
    | zero => exact .pure he
    | succ k' =>
      obtain ⟨t, us, rfl, hparen, hdot, _⟩ := hstops
      apply Makes.refused hparen
      apply Makes.refused hdot
      exact .pure he
  cases k with
  | zero => exact hcall
  | succ k =>
    obtain ⟨t, us, rfl, ht⟩ := hbegins
    apply Makes.passed (Parser.unaryOp?_none ht)
    exact hcall

theorem PrimaryMade.call (h : PrimaryMade ts e) : CallMade ts e := by
  intro n rest rest' good hn hnext
  apply (h n rest hn).bind
  intro e' he
  exact hnext (n + 1) e' (by rw [List.length_append] at hn; omega) he

theorem CallMade.call (h : CallMade callee f) (hopening : opening.kind = .leftParen)
    (harguments : ArgumentListMade ts es) (hmax : es.length ≤ maxList) (hclosing : closing.kind = .rightParen) :
    CallMade (callee ++ opening :: (ts ++ [closing])) (.call f closing.position es) := by
  intro n rest rest' good hn hnext
  simp only [List.append_assoc, List.cons_append, List.nil_append, List.length_append,
    List.length_cons] at hn ⊢
  apply h n _ rest' good (by simp only [List.length_append, List.length_cons]; omega)
  intro k f' hk hf
  cases k with
  | zero => cases hk
  | succ k =>
    simp only [List.length_append, List.length_cons] at hk
    apply Makes.accepted hopening
    have hcall : MakesExpr (Parser.finishCall k (Parser.expression n) f') (ts ++ closing :: rest)
        (.call f closing.position es) rest := by
      apply (harguments n k (closing :: rest) (by simp; omega) (by simp; omega) hmax
        (begins_cons.mpr hclosing)).bind
      intro es' hes
      apply Makes.expected hclosing
      exact .pure (.call hf rfl hes)
    apply hcall.bind
    intro e' he
    exact hnext k e' (by omega) he

theorem CallMade.get (h : CallMade object o) (hdot : dot.kind = .dot) (hproperty : property.kind = .identifier) :
    CallMade (object ++ [dot, property]) (.get o (ident property)) := by
  intro n rest rest' good hn hnext
  simp only [List.append_assoc, List.cons_append, List.nil_append] at hn ⊢
  apply h n _ rest' good hn
  intro k o' hk ho
  cases k with
  | zero => cases hk
  | succ k =>
    simp only [List.length_cons] at hk
    apply Makes.refused (hdot.trans_ne (by simp))
    apply Makes.accepted hdot
    apply Makes.named hproperty
    exact hnext k _ (by omega) (.get ho (alike_ident _))

theorem PrimaryMade.constant {c : Constant} (h : (t.kind, c) ∈ constants) :
    PrimaryMade [t] (.constant c) := by
  intro n rest _
  apply Makes.chosen ((Parser.lead?_iff (.constant c)).mpr h)
  exact .pure (.constant c)

theorem PrimaryMade.literal (h : t.kind = .number ∨ t.kind = .string) :
    PrimaryMade [t] (.constant (Parser.constantOf t)) := by
  intro n rest _
  apply Makes.chosen ((Parser.lead?_iff .literal).mpr h)
  exact .pure (.constant _)

theorem PrimaryMade.this (id : NodeId) (h : t.kind = .kwThis) : PrimaryMade [t] (.this id t.position) := by
  intro n rest _
  apply Makes.chosen ((Parser.lead?_iff .this).mpr h)
  apply Makes.freshId.bind
  intro id' _
  exact .pure (.this trivial rfl)

theorem PrimaryMade.name (id : NodeId) (h : t.kind = .identifier) :
    PrimaryMade [t] (.read ⟨id, ident t⟩) := by
  intro n rest _
  apply Makes.chosen ((Parser.lead?_iff .name).mpr h)
  apply (Makes.reference _).bind
  intro r hr
  exact .pure (.read ⟨trivial, hr ▸ alike_ident _⟩)

theorem PrimaryMade.grouping (hopening : opening.kind = .leftParen) (h : ExpressionMade ts e)
    (hclosing : closing.kind = .rightParen) : PrimaryMade (opening :: (ts ++ [closing])) (.grouping e) := by
  intro n rest hn
  simp only [List.append_assoc, List.cons_append, List.nil_append, List.length_cons] at hn ⊢
  apply Makes.chosen ((Parser.lead?_iff .paren).mpr hopening)
  apply (h n (closing :: rest) (by omega) (begins_cons.mpr (.inl hclosing))).bind
  intro e' he
  apply Makes.expected hclosing
  exact .pure (.grouping he)

theorem PrimaryMade.super (id : NodeId) (h : t.kind = .kwSuper) (hdot : dot.kind = .dot)
    (hproperty : property.kind = .identifier) :
    PrimaryMade [t, dot, property] (.super id t.position (ident property)) := by
  intro n rest _
  apply Makes.chosen ((Parser.lead?_iff .super).mpr h)
  apply Makes.expected hdot
  apply Makes.named hproperty
  apply Makes.freshId.bind
  intro id' _
  exact .pure (.super trivial rfl (alike_ident _))

theorem ArgumentListMade.none : ArgumentListMade [] [] := by
  rintro n k rest _ _ _ ⟨t, us, rfl, ht⟩
  apply Makes.checked_true ht
  exact .pure .nil

theorem ArgumentListMade.some (h : ArgumentsMade ts es) (hbegins : Begins (Parser.expressionWord ·) ts) :
    ArgumentListMade ts es := by
  obtain ⟨t, us, rfl, ht⟩ := hbegins
  intro n k rest hn hk hmax hrest
  apply Makes.checked_false (Parser.expressionWord_ne ht).1
  exact h n k 0 rest hn hk (by omega) hrest

theorem lt_maxArity {count k : Nat} (h : count + (k + 1) ≤ maxList) : count < Parser.maxArity :=
  Nat.lt_of_lt_of_le (by omega) h

theorem ArgumentsMade.last (h : ExpressionMade ts e) : ArgumentsMade ts [e] := by
  rintro n k count rest hn hk hmax ⟨t, us, rfl, ht⟩
  cases k with
  | zero => simp at hk
  | succ k =>
    apply (Makes.checkArity hmax _).bind
    intro _ _
    apply (h n _ hn (begins_cons.mpr (.inl ht))).bind
    intro e' he
    apply Makes.refused (ht.trans_ne (by simp))
    exact .pure (.cons he .nil)

theorem ArgumentsMade.more {us : List Token} (h : ExpressionMade ts e) (hcomma : comma.kind = .comma)
    (hmore : ArgumentsMade us es) : ArgumentsMade (ts ++ comma :: us) (e :: es) := by
  intro n k count rest hn hk hmax hrest
  simp only [List.append_assoc, List.cons_append, List.length_append, List.length_cons] at hn hk hmax ⊢
  cases k with
  | zero => omega
  | succ k =>
    apply (Makes.checkArity (lt_maxArity hmax) _).bind
    intro _ _
    apply (h n _ (by simp; omega) (begins_cons.mpr (.inr (.inl hcomma)))).bind
    intro e' he
    apply Makes.accepted hcomma
    apply (hmore n k (count + 1) rest (by simp; omega) (by simp; omega) (by omega) hrest).bind
    intro es' hes
    exact .pure (.cons he hes)

/-- What is called or accessed is by itself an operand of every tier. -/
theorem CallMade.chain (h : CallMade ts e) (hbegins : Begins (Parser.operandWord ·) ts) (T : List Tier) :
    ChainMade T ts e := by
  induction T with
  | nil => exact .operand (h.unary hbegins)
  | cons tier T ih => exact ih.single

/-- The left side of an equals sign is read like any other expression. -/
theorem ChainMade.target (h : ChainMade tiers ts e) {n : Nat} {equals : Token}
    (hn : (ts ++ equals :: rest).length ≤ n + 1) (hequals : equals.kind = .equal) :
    MakesExpr (Parser.logical (n + 1) (Parser.expression n)) (ts ++ equals :: rest) e (equals :: rest) := by
  rw [Parser.logical_eq]
  exact h.whole hn Parser.choices_offer List.suffix_rfl (stops_of_mem (by simp) hequals)

theorem ChainMade.value (h : ChainMade tiers ts e) : ExpressionMade ts e := by
  intro n rest hn hrest
  cases n with
  | zero =>
    obtain ⟨t, us, rfl, _⟩ := hrest
    simp at hn
  | succ n =>
    apply (h.whole hn Parser.choices_offer List.suffix_rfl hrest.stops).bind
    intro e' he
    obtain ⟨t, us, rfl, ht⟩ := hrest
    have hne : t.kind ≠ .equal := by
      rcases ht with h | h | h <;> exact h.trans_ne nofun
    apply Makes.passed (if_neg hne)
    exact .pure he

theorem ExpressionMade.assign (id : NodeId) (ht : t.kind = .identifier) (hequals : equals.kind = .equal)
    (h : ExpressionMade ts e) :
    ExpressionMade (t :: equals :: ts) (.assign ⟨id, ident t⟩ e) := by
  intro n rest hn hrest
  cases n with
  | zero => cases hn
  | succ n =>
    have htarget : ChainMade tiers [t] (.read ⟨id, ident t⟩) :=
      (PrimaryMade.name id ht).call.chain (begins_cons.mpr (operandWord_of .name ht)) tiers
    apply (htarget.target hn hequals).bind
    intro e' he
    cases he with
    | read hr =>
      apply Makes.chosen (if_pos hequals)
      simp only [List.cons_append, List.length_cons] at hn
      apply (h n rest (by omega) hrest).bind
      intro v hv
      apply (Makes.reference _).bind
      intro r hr'
      exact .pure (.assign ⟨trivial, hr' ▸ hr.ident⟩ hv)

theorem ExpressionMade.set (ho : CallMade object o)
    (hbegins : Begins (Parser.operandWord ·) object) (hdot : dot.kind = .dot)
    (hproperty : property.kind = .identifier) (hequals : equals.kind = .equal) (h : ExpressionMade ts e) :
    ExpressionMade (object ++ dot :: property :: equals :: ts) (.set o (ident property) e) := by
  intro n rest hn hrest
  cases n with
  | zero => simp at hn
  | succ n =>
    have htarget : ChainMade tiers (object ++ [dot, property]) (.get o (ident property)) :=
      (ho.get hdot hproperty).chain (hbegins.append _) tiers
    have hread : MakesExpr (Parser.logical (n + 1) (Parser.expression n))
        (object ++ [dot, property] ++ equals :: (ts ++ rest)) _ (equals :: (ts ++ rest)) :=
      htarget.target (by simpa using hn) hequals
    rw [List.append_assoc] at hread ⊢
    apply hread.bind
    intro e' he
    cases he with
    | get ho' hx =>
      apply Makes.chosen (if_pos hequals)
      simp only [List.append_assoc, List.cons_append, List.length_append, List.length_cons] at hn
      apply (h n rest (by rw [List.length_append]; omega) hrest).bind
      intro v hv
      exact .pure (.set ho' hx hv)

end Operands

theorem Arguments.begins {ts : List Token} {es : List Expr} (h : Arguments ts es) :
    Begins (Parser.expressionWord ·) ts := by
  cases h with
  | last h => exact h.begins
  | more h _ _ => exact h.begins.append _

mutual

theorem Expression.made : ∀ {ts : List Token} {e : Expr}, Expression ts e → ExpressionMade ts e
  | _, _, .value h => h.made.value
  | _, _, .assign id hname hequals h => .assign id hname hequals h.made
  | _, _, .set ho hdot hname hequals h => .set ho.made ho.begins hdot hname hequals h.made
termination_by structural _ _ h => h

theorem Chain.made : ∀ {T : List Tier} {ts : List Token} {e : Expr}, Chain T ts e → ChainMade T ts e
  | _, _, _, .operand h => .operand h.made
  | _, _, _, .single h => .single h.made
  | _, _, _, .join (f := f) hl hf hr => .join hl.made hf hr.made
termination_by structural _ _ _ h => h

theorem Unary.made : ∀ {ts : List Token} {e : Expr}, Unary ts e → UnaryMade ts e
  | _, _, .apply hop h => .apply hop h.made
  | _, _, .call h => h.made.unary h.begins
termination_by structural _ _ h => h

theorem Call.made : ∀ {ts : List Token} {e : Expr}, Call ts e → CallMade ts e
  | _, _, .primary h => h.made.call
  | _, _, .call hf hopening hes hmax hclosing => .call hf.made hopening hes.made hmax hclosing
  | _, _, .get ho hdot hname => .get ho.made hdot hname
termination_by structural _ _ h => h

theorem Primary.made : ∀ {ts : List Token} {e : Expr}, Primary ts e → PrimaryMade ts e
  | _, _, .constant h => .constant h
  | _, _, .literal h => .literal h
  | _, _, .this id h => .this id h
  | _, _, .name id h => .name id h
  | _, _, .grouping hopening h hclosing => .grouping hopening h.made hclosing
  | _, _, .super id h hdot hname => .super id h hdot hname
termination_by structural _ _ h => h

theorem ArgumentList.made : ∀ {ts : List Token} {es : List Expr}, ArgumentList ts es → ArgumentListMade ts es
  | _, _, .none => .none
  | _, _, .some h => .some h.made h.begins
termination_by structural _ _ h => h

theorem Arguments.made : ∀ {ts : List Token} {es : List Expr}, Arguments ts es → ArgumentsMade ts es
  | _, _, .last h => .last h.made
  | _, _, .more h hcomma hmore => .more h.made hcomma hmore.made
termination_by structural _ _ h => h

end

end Grammar

end LoxLang
