import LoxLang.Proofs.Syntax.Parsed

/-!
Rules that succeed. How a rule ends is fixed by the tokens in front of it; which identities it starts with and
what has been reported before makes no difference to that.
-/

namespace LoxLang

namespace Parser

/-- In front of `before`, the rule yields something good and leaves `rest`, without a fault. -/
def Makes {α : Type} (x : Parser α) (before : List Token) (good : α → Prop) (rest : List Token) : Prop :=
  ∀ (id : NodeId) (faults : Array Diagnostic), ∃ a id',
    x.run ⟨before, id, faults⟩ = .ok a ⟨rest, id', faults⟩ ∧ good a

namespace Makes

variable {α β : Type} {x : Parser α} {f : α → Parser β} {before middle rest : List Token} {t : Token}
  {good : α → Prop} {good' : β → Prop}

theorem pure {a : α} (h : good a) : Makes (Pure.pure a) before good before :=
  fun id _ => ⟨a, id, rfl, h⟩

theorem bind (hx : Makes x before good middle) (hf : ∀ a, good a → Makes (f a) middle good' rest) :
    Makes (x >>= f) before good' rest := by
  intro id faults
  obtain ⟨a, id₁, hrun, ha⟩ := hx id faults
  obtain ⟨b, id₂, hrun', hb⟩ := hf a ha id₁ faults
  refine ⟨b, id₂, ?_, hb⟩
  rw [EStateM.run_bind, hrun]
  exact hrun'

theorem freshId : Makes Parser.freshId before (fun _ => True) before :=
  fun id _ => ⟨id, id + 1, rfl, trivial⟩

theorem reference (name : Ident) : Makes (Parser.reference name) before (·.ident = name) before :=
  freshId.bind fun _ _ => .pure rfl

theorem checkArity {count : Nat} (h : count < maxArity) (fault : GrammarFault) :
    Makes (Parser.checkArity count fault) before (fun _ => True) before := by
  unfold Parser.checkArity
  rw [if_neg (Nat.not_le_of_lt h)]
  exact .pure trivial

section Choice

variable {γ : Type} {choose : TokenKind → Option γ} {f : Option (γ × Token) → Parser β}

theorem not_chosen (h : ∀ u us, before = u :: us → choose u.kind = none)
    (hf : Makes (f none) before good' rest) :
    Makes (Parser.acceptWith? choose >>= f) before good' rest := by
  intro id faults
  rw [EStateM.run_bind, run_acceptWith?_none h]
  exact hf id faults

theorem passed (h : choose t.kind = none) (hf : Makes (f none) (t :: before) good' rest) :
    Makes (Parser.acceptWith? choose >>= f) (t :: before) good' rest := by
  apply not_chosen _ hf
  intro u us hcons
  cases hcons
  exact h

theorem chosen {a : γ} (h : choose t.kind = some a) (hf : Makes (f (some (a, t))) before good' rest) :
    Makes (Parser.acceptWith? choose >>= f) (t :: before) good' rest := by
  intro id faults
  rw [EStateM.run_bind, run_acceptWith?_some rfl h]
  exact hf id faults

end Choice

section Tokens

variable {kind : TokenKind} {f : Bool → Parser β}

theorem not_accepted (h : ∀ u us, before = u :: us → u.kind ≠ kind)
    (hf : Makes (f false) before good' rest) : Makes (Parser.accept kind >>= f) before good' rest := by
  unfold Parser.accept
  rw [bind_assoc]
  exact not_chosen (fun u us hrest => if_neg (h u us hrest)) hf

theorem refused (h : t.kind ≠ kind) (hf : Makes (f false) (t :: before) good' rest) :
    Makes (Parser.accept kind >>= f) (t :: before) good' rest := by
  apply not_accepted _ hf
  intro u us hcons
  cases hcons
  exact h

theorem accepted (h : t.kind = kind) (hf : Makes (f true) before good' rest) :
    Makes (Parser.accept kind >>= f) (t :: before) good' rest := by
  unfold Parser.accept
  rw [bind_assoc]
  exact chosen (if_pos h) hf

theorem expected {what : String} {f : Token → Parser β} (h : t.kind = kind)
    (hf : Makes (f t) before good' rest) :
    Makes (Parser.expect kind what >>= f) (t :: before) good' rest := by
  unfold Parser.expect
  rw [bind_assoc]
  exact chosen (if_pos h) hf

theorem named {what : String} {f : Ident → Parser β} (h : t.kind = .identifier)
    (hf : Makes (f ⟨t.lexeme, t.position⟩) before good' rest) :
    Makes (Parser.identifier what >>= f) (t :: before) good' rest := by
  unfold Parser.identifier
  rw [bind_assoc]
  exact expected h hf

theorem checked_true (h : t.kind = kind) (hf : Makes (f true) (t :: before) good' rest) :
    Makes (Parser.check kind >>= f) (t :: before) good' rest := by
  rw [← beq_iff_eq.mpr h] at hf
  exact hf

theorem checked_false (h : t.kind ≠ kind) (hf : Makes (f false) (t :: before) good' rest) :
    Makes (Parser.check kind >>= f) (t :: before) good' rest := by
  rw [← beq_eq_false_iff_ne.mpr h] at hf
  exact hf

end Tokens

theorem recovering {rule : Parser Stmt} {good : Stmt → Prop} (h : Makes rule before good rest) :
    Makes (Parser.recovering rule) before (fun r => ∃ stmt, r = some stmt ∧ good stmt) rest := by
  intro id faults
  obtain ⟨stmt, id', hrun, hstmt⟩ := h id faults
  refine ⟨some stmt, id', ?_, stmt, rfl, hstmt⟩
  unfold EStateM.run at hrun ⊢
  unfold Parser.recovering
  rw [hrun]

end Makes

end Parser

end LoxLang
