import LoxLang.Proofs.Scope.Mentions
import LoxLang.Proofs.Syntax.Parsed
import LoxLang.Proofs.Syntax.Watched

/-!
Each rule of the grammar does under watch what it does in the parser. As long as the only end of the file is
the last token and the cursor has not passed it, there is a token to look at; and as long as a bound is at least
the number of tokens left, it is not used up. Every rule keeps it so, and the rules that loops repeat consume a
token each time. The mentions that are taken down get identities that nothing else gets, however a rule ends;
and the mentions in what it yields are among them.
-/

namespace LoxLang

namespace Watched

variable {α β γ : Type} {s s' s'' : State} {c c' d m n : Nat}

/-- What the parser sees of a state. -/
def State.view (s : State) : Parser.State :=
  ⟨s.tokens.drop s.current, s.nextId, s.faults⟩

/-- How many tokens have not been consumed. -/
def State.left (s : State) : Nat :=
  s.tokens.length - s.current

/-- A call of the rule for declarations that began in front of the end of the file has consumed a token, but
not that; and if there is no statement, a fault has been reported. -/
structure Call.Sound (tokens : List Token) (call : Call) : Prop where
  begun : call.start + 1 < tokens.length
  progress : call.start < call.stop
  inside : call.stop < tokens.length
  reported : call.statement = none → call.before < call.after

/-- The only end of the file is the last token. -/
def Closed (ts : List Token) : Prop :=
  ∃ front last, ts = front ++ [last] ∧ last.kind = .eof ∧ ∀ t ∈ front, t.kind ≠ .eof

/-- What holds of every state that is come to. -/
structure State.Fits (s : State) : Prop where
  closed : Closed s.tokens
  inside : s.current < s.tokens.length
  /-- The cursor has been at one token after the other. -/
  path : s.path.toList = List.range (s.current + 1)
  sound : ∀ call ∈ s.calls.toList, call.Sound s.tokens
  /-- No fault is forgotten. -/
  kept : ∀ call ∈ s.calls.toList, call.after ≤ s.faults.size

/-- How a rule may change the state: it takes down new mentions behind the others. -/
structure Onwards (s s' : State) : Prop where
  fits : s'.Fits
  tokens : s'.tokens = s.tokens
  left : s'.left ≤ s.left
  faults : s.faults.size ≤ s'.faults.size
  nextId : @LE.le Nat _ s.nextId s'.nextId
  made : ∃ more, s'.made = s.made ++ more ∧ GivenOut s.nextId s'.nextId (more.map (·.id))

namespace Onwards

/-- A step that makes no mention and gives out no identity. -/
theorem silent (hfits : s'.Fits) (htokens : s'.tokens = s.tokens) (hleft : s'.left ≤ s.left)
    (hfaults : s.faults.size ≤ s'.faults.size) (hnext : s'.nextId = s.nextId) (hmade : s'.made = s.made) :
    Onwards s s' :=
  ⟨hfits, htokens, hleft, hfaults, Nat.le_of_eq hnext.symm, [], by simp [hmade], .nil⟩

theorem refl (h : s.Fits) : Onwards s s :=
  silent h rfl (Nat.le_refl _) (Nat.le_refl _) rfl rfl

theorem trans (h : Onwards s s') (h' : Onwards s' s'') : Onwards s s'' := by
  obtain ⟨more, hmore, hgiven⟩ := h.made
  obtain ⟨more', hmore', hgiven'⟩ := h'.made
  refine ⟨h'.fits, h'.tokens.trans h.tokens, Nat.le_trans h'.left h.left, Nat.le_trans h.faults h'.faults,
    Nat.le_trans h.nextId h'.nextId, more ++ more', ?_, ?_⟩
  · rw [hmore', hmore, List.append_assoc]
  · rw [List.map_append]
    exact hgiven.append hgiven' h.nextId h'.nextId

/-- What has been taken down stays. -/
theorem subset (h : Onwards s s') : s.made ⊆ s'.made := by
  obtain ⟨more, hmore, -⟩ := h.made
  rw [hmore]
  exact List.subset_append_left _ _

end Onwards

/-- From a state that fits, the rule `q` does under watch what `p` does in the parser. If it succeeds, it has
consumed at least `c` tokens, and the mentions that what it yields holds have been taken down. -/
def Watches (c : Nat) (s : State) (p : Parser α) (q : Watched α) (held : α → List Reference) : Prop :=
  s.Fits → Agree p q s.view s
    (fun a v b s' => a = b ∧ v = s'.view ∧ Onwards s s' ∧ s'.left + c ≤ s.left ∧ held b ⊆ s'.made)
    fun fault v stop s' => stop = .fault fault ∧ v = s'.view ∧ Onwards s s'

/-- The value holds no mentions. -/
def nothing (_ : α) : List Reference :=
  []

/-- The mentions of a value that may be left out. -/
def optional (held : α → List Reference) : Option α → List Reference
  | none => []
  | some a => held a

/-! ### Sequences -/

namespace Watches

variable {p : Parser α} {q : Watched α} {f : α → Parser β} {g : α → Watched β} {held : α → List Reference}
  {held' : β → List Reference}

theorem pure {a : α} (h : held a ⊆ s.made) : Watches 0 s (Pure.pure a) (Pure.pure a) held :=
  fun hs => ⟨rfl, rfl, .refl hs, Nat.le_refl _, h⟩

theorem sequence (hp : Watches c s p q held)
    (hf : ∀ a s', s'.left + c ≤ s.left → s.made ⊆ s'.made → held a ⊆ s'.made →
      Watches c' s' (f a) (g a) held') :
    Watches (c + c') s (p >>= f) (q >>= g) held' := by
  intro hs
  refine (hp hs).bind ?_
  rintro a _ _ s₁ ⟨rfl, rfl, h₁, hleft₁, hheld⟩
  refine (hf a s₁ hleft₁ h₁.subset hheld h₁.fits).imp ?_ ?_
  · rintro b v b' s₂ ⟨hb, hv, h₂, hleft₂, hheld'⟩
    exact ⟨hb, hv, h₁.trans h₂, by omega, hheld'⟩
  · rintro fault v stop s₂ ⟨hstop, hv, h₂⟩
    exact ⟨hstop, hv, h₁.trans h₂⟩

theorem weaken (hp : Watches c s p q held) (hc : c' ≤ c) : Watches c' s p q held := by
  intro hs
  refine (hp hs).imp ?_ fun _ _ _ _ h => h
  rintro a v b s₁ ⟨hb, hv, h₁, hleft, hheld⟩
  exact ⟨hb, hv, h₁, by omega, hheld⟩

/-- The tokens that the second rule consumes are enough for both. -/
theorem bind (hp : Watches c s p q held)
    (hf : ∀ a s', s'.left + c ≤ s.left → s.made ⊆ s'.made → held a ⊆ s'.made →
      Watches c' s' (f a) (g a) held') :
    Watches c' s (p >>= f) (q >>= g) held' :=
  (sequence hp hf).weaken (Nat.le_add_left c' c)

/-- The tokens that the first rule consumes are enough for both. -/
theorem bind_first (hp : Watches c s p q held)
    (hf : ∀ a s', s'.left + c ≤ s.left → s.made ⊆ s'.made → held a ⊆ s'.made →
      Watches 0 s' (f a) (g a) held') :
    Watches c s (p >>= f) (q >>= g) held' :=
  sequence hp hf

/-- There is always a token left, so a bound on their number is not used up. -/
theorem of_bound (h : s.left ≤ 0) : Watches c s p q held := by
  intro hs
  have hinside := hs.inside
  unfold State.left at h
  omega

end Watches

/-! ### Tokens -/

section Tokens

theorem look_run {place : Nat} {t : Token} (h : s.tokens[place]? = some t) :
    (look place).run s = .ok t s := by
  unfold look
  rw [EStateM.run_bind]
  simp only [EStateM.run_get, h, EStateM.run_pure]

namespace State.Fits

theorem front (h : s.Fits) : s.tokens[s.current]? = some s.view.front := by
  unfold view Parser.State.front
  rw [List.drop_eq_getElem_cons h.inside, List.getElem?_eq_getElem h.inside, List.headD_cons]

theorem rest (h : s.Fits) : s.view.rest = s.view.front :: s.tokens.drop (s.current + 1) := by
  unfold view Parser.State.front
  rw [List.drop_eq_getElem_cons h.inside, List.headD_cons]

/-- The token in front is the end of the file if and only if it is the last one. -/
theorem front_eof_iff (h : s.Fits) : s.view.front.kind = .eof ↔ s.current + 1 = s.tokens.length := by
  obtain ⟨front, last, htokens, hlast, hothers⟩ := h.closed
  have hinside := h.inside
  have htoken := h.front
  have hlength : s.tokens.length = front.length + 1 := by rw [htokens, List.length_append, List.length_singleton]
  rcases Nat.lt_or_ge s.current front.length with hlt | hge
  · rw [htokens, List.getElem?_append_left hlt] at htoken
    exact iff_of_false (hothers _ (List.mem_of_getElem? htoken)) (by omega)
  · have hcurrent : s.current = front.length := by omega
    rw [hcurrent, htokens, List.getElem?_concat_length] at htoken
    exact iff_of_true (Option.some.inj htoken ▸ hlast) (by omega)

theorem lt_of_front (h : s.Fits) (hfront : s.view.front.kind ≠ .eof) : s.current + 1 < s.tokens.length := by
  have hinside := h.inside
  have hne := mt h.front_eof_iff.mpr hfront
  omega

theorem moved (h : s.Fits) (hfront : s.view.front.kind ≠ .eof) : s.moved.Fits where
  closed := h.closed
  inside := h.lt_of_front hfront
  path := by simp [State.moved, h.path, List.range_succ]
  sound := h.sound
  kept := h.kept

end State.Fits

theorem left_moved (h : s.Fits) : s.moved.left + 1 = s.left := by
  have hinside := h.inside
  unfold State.left State.moved
  dsimp only
  omega

theorem onwards_moved (h : s.Fits) (hfront : s.view.front.kind ≠ .eof) : Onwards s s.moved :=
  .silent (h.moved hfront) rfl (by have := left_moved h; omega) (Nat.le_refl _) rfl rfl

theorem peek_run (h : s.Fits) : peek.run s = .ok s.view.front s :=
  look_run h.front

theorem advance_run (h : s.Fits) : advance.run s = .ok () (if s.view.front.kind = .eof then s else s.moved) := by
  unfold advance
  rw [EStateM.run_bind, peek_run h]
  dsimp only
  by_cases hfront : s.view.front.kind = .eof
  · simp [hfront, EStateM.run_pure]
  · simp only [hfront, ne_eq, not_false_eq_true, if_true, if_false]
    rfl

theorem acceptWith?_run_none {choose : TokenKind → Option γ} (h : s.Fits)
    (hchoose : choose s.view.front.kind = none) : (acceptWith? choose).run s = .ok none s := by
  unfold acceptWith?
  rw [EStateM.run_bind, peek_run h]
  simp only [hchoose, EStateM.run_pure]

theorem acceptWith?_run_some {choose : TokenKind → Option γ} {a : γ} (h : s.Fits)
    (hchoose : choose s.view.front.kind = some a) (hfront : s.view.front.kind ≠ .eof) :
    (acceptWith? choose).run s = .ok (some (a, s.view.front)) s.moved := by
  unfold acceptWith?
  rw [EStateM.run_bind, peek_run h]
  simp only [hchoose]
  rw [EStateM.run_bind, advance_run h, if_neg hfront]
  rfl

namespace Watches

theorem freshId : Watches 0 s Parser.freshId Watched.freshId nothing := by
  intro h
  refine ⟨rfl, rfl, ⟨⟨h.closed, h.inside, h.path, h.sound, h.kept⟩, rfl, Nat.le_refl _, Nat.le_refl _,
    Nat.le_succ _, [], (List.append_nil _).symm, .nil⟩, Nat.le_refl _, List.nil_subset _⟩

/-- A mention is taken down with its name. -/
theorem mention (name : Ident) : Watches 0 s (Parser.reference name) (Watched.mention name) fun r => [r] := by
  intro h
  refine ⟨rfl, rfl, ⟨⟨h.closed, h.inside, h.path, h.sound, h.kept⟩, rfl, Nat.le_refl _, Nat.le_refl _,
    Nat.le_succ _, [⟨s.nextId, name⟩], rfl, ?_⟩, Nat.le_refl _, ?_⟩
  · exact .singleton (Nat.le_refl _) (Nat.lt_succ_self _)
  · exact List.subset_append_right _ _

/-- A node of its own form is a mention too. -/
theorem node (name : Ident) {f : NodeId → Expr} (hf : ∀ id, (f id).references = [⟨id, name⟩]) :
    Watches 0 s (Parser.freshId >>= fun id => Pure.pure (f id))
      (Watched.mention name >>= fun r => Pure.pure (f r.id)) Expr.references := by
  intro h
  refine ⟨rfl, rfl, ⟨⟨h.closed, h.inside, h.path, h.sound, h.kept⟩, rfl, Nat.le_refl _, Nat.le_refl _,
    Nat.le_succ _, [⟨s.nextId, name⟩], rfl, ?_⟩, Nat.le_refl _, ?_⟩
  · exact .singleton (Nat.le_refl _) (Nat.lt_succ_self _)
  · rw [hf]
    exact List.subset_append_right _ _

theorem peek : Watches 0 s Parser.peek Watched.peek nothing := by
  intro h
  unfold Agree
  rw [peek_run h]
  exact ⟨rfl, rfl, .refl h, Nat.le_refl _, List.nil_subset _⟩

theorem failHere (fault : GrammarFault) {held : α → List Reference} :
    Watches c s (Parser.failHere fault : Parser α) (Watched.failHere fault) held := by
  have hfail : ∀ t s', Watches c s' (throw ⟨Token.position t, .grammar fault, none⟩ : Parser α)
      (throw (.fault ⟨t.position, .grammar fault, none⟩) : Watched α) held := fun t s' h => ⟨rfl, rfl, .refl h⟩
  exact peek.bind fun t s' _ _ _ => hfail t s'

theorem report (position : Position) (fault : GrammarFault) :
    Watches 0 s (Parser.report position fault) (Watched.report position fault) nothing := by
  intro h
  have hfits : State.Fits { s with faults := s.faults.push ⟨position, .grammar fault, none⟩ } :=
    ⟨h.closed, h.inside, h.path, h.sound, fun call hcall => Nat.le_trans (h.kept call hcall) (by simp)⟩
  exact ⟨rfl, rfl, .silent hfits rfl (Nat.le_refl _) (by simp) rfl rfl, Nat.le_refl _, List.nil_subset _⟩

theorem checkArity (count : Nat) (fault : GrammarFault) :
    Watches 0 s (Parser.checkArity count fault) (Watched.checkArity count fault) nothing := by
  unfold Parser.checkArity Watched.checkArity
  split
  · exact peek.bind fun t s' _ _ _ => report t.position fault
  · exact pure (List.nil_subset _)

/-- A choice by the token in front, which is consumed if it has a value. -/
theorem choice {choose : TokenKind → Option γ} (heof : choose .eof = none)
    {f : Option (γ × Token) → Parser β} {g : Option (γ × Token) → Watched β} {held : β → List Reference}
    (hc : c ≤ d + 1) (hnone : Watches c s (f none) (g none) held)
    (hsome : ∀ a t s', choose t.kind = some a → s'.left + 1 ≤ s.left → s.made ⊆ s'.made →
      Watches d s' (f (some (a, t))) (g (some (a, t))) held) :
    Watches c s (Parser.acceptWith? choose >>= f) (Watched.acceptWith? choose >>= g) held := by
  intro h
  have hrest := h.rest
  cases hchoose : choose s.view.front.kind with
  | none =>
    have hrun : (Parser.acceptWith? choose).run s.view = .ok none s.view := by
      refine Parser.run_acceptWith?_none fun u us hu => ?_
      rw [hu, List.cons.injEq] at hrest
      rw [hrest.1, hchoose]
    unfold Agree
    rw [EStateM.run_bind, EStateM.run_bind, hrun, acceptWith?_run_none h hchoose]
    exact hnone h
  | some a =>
    have hfront : s.view.front.kind ≠ .eof := fun hkind => by rw [hkind, heof] at hchoose; cases hchoose
    have hrun : (Parser.acceptWith? choose).run s.view = .ok (some (a, s.view.front)) s.moved.view :=
      Parser.run_acceptWith?_some hrest hchoose
    have hmoved := onwards_moved h hfront
    have hleft := left_moved h
    unfold Agree
    rw [EStateM.run_bind, EStateM.run_bind, hrun, acceptWith?_run_some h hchoose hfront]
    have hnext := hsome a s.view.front s.moved hchoose (Nat.le_of_eq hleft) hmoved.subset hmoved.fits
    refine Agree.imp (x := f (some (a, s.view.front))) (y := g (some (a, s.view.front))) hnext ?_ ?_
    · rintro b v b' s₂ ⟨hb, hv, h₂, hleft₂, hheld⟩
      exact ⟨hb, hv, hmoved.trans h₂, by omega, hheld⟩
    · rintro fault v stop s₂ ⟨hstop, hv, h₂⟩
      exact ⟨hstop, hv, hmoved.trans h₂⟩

theorem accepted {kind : TokenKind} (heof : kind ≠ .eof) {f : Bool → Parser β} {g : Bool → Watched β}
    {held : β → List Reference} (hc : c ≤ d + 1) (hfalse : Watches c s (f false) (g false) held)
    (htrue : ∀ s', s'.left + 1 ≤ s.left → s.made ⊆ s'.made → Watches d s' (f true) (g true) held) :
    Watches c s (Parser.accept kind >>= f) (Watched.accept kind >>= g) held := by
  have hchoice : Watches c s
      ((Parser.acceptWith? fun k => if k = kind then some () else none) >>= fun r => f r.isSome)
      ((Watched.acceptWith? fun k => if k = kind then some () else none) >>= fun r => g r.isSome) held :=
    choice (if_neg heof.symm) hc hfalse fun _ _ s' _ h hmade => htrue s' h hmade
  unfold Parser.accept Watched.accept
  rw [bind_assoc, bind_assoc]
  exact hchoice

theorem expect {kind : TokenKind} (heof : kind ≠ .eof) (what : String) :
    Watches 1 s (Parser.expect kind what) (Watched.expect kind what) nothing :=
  choice (if_neg heof.symm) (Nat.le_refl 1) (failHere _) fun _ _ _ _ _ _ => pure (List.nil_subset _)

theorem identifier (what : String) :
    Watches 1 s (Parser.identifier what) (Watched.identifier what) nothing :=
  (expect (by decide) what).bind_first fun _ _ _ _ _ => pure (List.nil_subset _)

/-- Looking at the kind of the token in front. -/
theorem checked {kind : TokenKind} {f : Bool → Parser β} {g : Bool → Watched β} {held : β → List Reference}
    (h : ∀ b, b = (s.view.front.kind == kind) → Watches c s (f b) (g b) held) :
    Watches c s (Parser.check kind >>= f) (Watched.check kind >>= g) held := by
  intro hs
  unfold Watched.check
  rw [bind_assoc]
  unfold Agree
  rw [EStateM.run_bind, EStateM.run_bind, peek_run hs]
  exact h _ rfl hs

/-- A rule that ends with a token of some kind. -/
theorem ended {p : Parser α} {q : Watched α} {f : α → Parser β} {g : α → Watched β}
    {held : α → List Reference} {held' : β → List Reference} {kind : TokenKind} {what : String}
    (hp : Watches c s p q held) (heof : kind ≠ .eof)
    (hf : ∀ a s', s'.left + 1 ≤ s.left → s.made ⊆ s'.made → held a ⊆ s'.made →
      Watches 0 s' (f a) (g a) held') :
    Watches 1 s (p >>= fun a => Parser.expect kind what >>= fun _ => f a)
      (q >>= fun a => Watched.expect kind what >>= fun _ => g a) held' :=
  hp.bind fun a s₁ h₁ hmade₁ hheld => (expect heof what).bind_first fun _ s₂ h₂ hmade₂ _ =>
    hf a s₂ (by omega) (List.Subset.trans hmade₁ hmade₂) (List.Subset.trans hheld hmade₂)

end Watches

end Tokens

/-! ### Expressions -/

/-- With up to `m` tokens left, `q` does under watch what `p` does. -/
def WatchesAll (c m : Nat) (p : Parser α) (q : Watched α) (held : α → List Reference) : Prop :=
  ∀ s : State, s.left ≤ m → Watches c s p q held

/-- Operators whose expressions have the mentions of their operands. -/
def Joins (choose : TokenKind → Option (Expr → Position → Expr → Expr)) : Prop :=
  choose .eof = none ∧ ∀ kind join, choose kind = some join → ∀ l position r,
    (join l position r).references = l.references ++ r.references

theorem binary_joins {tier : TokenKind → Option BinaryOp} (heof : tier .eof = none) :
    Joins fun k => (tier k).map fun op l p r => .binary l op p r := by
  refine ⟨by simp [heof], ?_⟩
  rintro kind join hjoin l position r
  obtain ⟨op, _, rfl⟩ := Option.map_eq_some_iff.mp hjoin
  rfl

theorem logical_joins {kind : TokenKind} (op : LogicalOp) (heof : kind ≠ .eof) :
    Joins fun k => if k = kind then some fun l _ r => .logical l op r else none := by
  refine ⟨by simp [heof.symm], ?_⟩
  intro k join hjoin l position r
  obtain ⟨_, hjoin⟩ := Option.ite_none_right_eq_some.mp hjoin
  cases hjoin
  rfl

namespace Watches

section Expressions

variable {p : Parser Expr} {q : Watched Expr}

theorem chainFrom {choose : TokenKind → Option (Expr → Position → Expr → Expr)} (hjoins : Joins choose)
    (hp : WatchesAll 0 m p q Expr.references) (n : Nat) {left : Expr} (hleft : left.references ⊆ s.made)
    (hn : s.left ≤ n) (hm : s.left ≤ m) :
    Watches 0 s (Parser.chainFrom choose p n left) (Watched.chainFrom choose q n left) Expr.references := by
  induction n generalizing s left with
  | zero => exact of_bound hn
  | succ n ih =>
    refine choice (d := 0) hjoins.1 (Nat.zero_le _) (pure hleft) fun join t s₁ hjoin h₁ hmade₁ => ?_
    refine (hp s₁ (by omega)).bind fun right s₂ h₂ hmade₂ hright => ?_
    refine ih ?_ (by omega) (by omega)
    rw [hjoins.2 _ _ hjoin]
    exact List.append_subset.mpr ⟨List.Subset.trans hleft (List.Subset.trans hmade₁ hmade₂), hright⟩

theorem chain {choose : TokenKind → Option (Expr → Position → Expr → Expr)} (hjoins : Joins choose)
    (hp : WatchesAll 0 m p q Expr.references) :
    WatchesAll 0 m (Parser.chain m choose p) (Watched.chain m choose q) Expr.references := fun s hs =>
  (hp s hs).bind fun _ _ _ _ hleft => chainFrom hjoins hp m hleft (by omega) (by omega)

theorem unary (hp : WatchesAll 0 m p q Expr.references) (n : Nat) (hn : s.left ≤ n) (hm : s.left ≤ m) :
    Watches 0 s (Parser.unary p n) (Watched.unary q n) Expr.references := by
  induction n generalizing s with
  | zero => exact of_bound hn
  | succ n ih =>
    refine choice (d := 0) rfl (Nat.zero_le _) (hp s hm) fun op t s₁ _ h₁ _ => ?_
    exact (ih (by omega) (by omega)).bind fun _ _ _ _ he => pure he

theorem argumentsFrom (hp : WatchesAll 0 m p q Expr.references) (n count : Nat) (hn : s.left ≤ n)
    (hm : s.left ≤ m) :
    Watches 0 s (Parser.argumentsFrom p n count) (Watched.argumentsFrom q n count) Expr.allReferences := by
  induction n generalizing s count with
  | zero => exact of_bound hn
  | succ n ih =>
    refine (checkArity _ _).bind fun _ s₁ h₁ _ _ => ?_
    refine (hp s₁ (by omega)).bind fun e s₂ h₂ _ he => ?_
    refine accepted (d := 0) (by decide) (Nat.zero_le _) ?_ fun s₃ h₃ hmade₃ => ?_
    · exact pure (List.append_subset.mpr ⟨he, List.nil_subset _⟩)
    · refine (ih (count + 1) (by omega) (by omega)).bind fun es s₄ _ hmade₄ hes => pure ?_
      exact List.append_subset.mpr ⟨List.Subset.trans he (List.Subset.trans hmade₃ hmade₄), hes⟩

theorem arguments (hp : WatchesAll 0 m p q Expr.references) (hn : s.left ≤ n) (hm : s.left ≤ m) :
    Watches 0 s (Parser.arguments n p) (Watched.arguments n q) Expr.allReferences := by
  refine checked fun closed _ => ?_
  cases closed with
  | true => exact pure (List.nil_subset _)
  | false => exact argumentsFrom hp n 0 hn hm

theorem finishCall (hp : WatchesAll 0 m p q Expr.references) (hn : s.left ≤ n) (hm : s.left ≤ m)
    {callee : Expr} (hcallee : callee.references ⊆ s.made) :
    Watches 0 s (Parser.finishCall n p callee) (Watched.finishCall n q callee) Expr.references := by
  refine (arguments hp hn hm).bind fun es s₁ _ hmade₁ hes => ?_
  refine (expect (by decide) _).bind fun paren s₂ _ hmade₂ _ => pure ?_
  exact List.append_subset.mpr
    ⟨List.Subset.trans hcallee (List.Subset.trans hmade₁ hmade₂), List.Subset.trans hes hmade₂⟩

theorem postfixes (hp : WatchesAll 0 m p q Expr.references) (n : Nat) {e : Expr} (he : e.references ⊆ s.made)
    (hn : s.left ≤ n) (hm : s.left ≤ m + 1) :
    Watches 0 s (Parser.postfixes p n e) (Watched.postfixes q n e) Expr.references := by
  induction n generalizing s e with
  | zero => exact of_bound hn
  | succ n ih =>
    refine accepted (d := 0) (by decide) (Nat.zero_le _) ?_ fun s₁ h₁ hmade₁ => ?_
    · refine accepted (d := 0) (by decide) (Nat.zero_le _) (pure he) fun s₁ h₁ hmade₁ => ?_
      refine (identifier _).bind fun name s₂ h₂ hmade₂ _ => ?_
      exact ih (List.Subset.trans he (List.Subset.trans hmade₁ hmade₂)) (by omega) (by omega)
    · refine (finishCall hp (by omega) (by omega) (List.Subset.trans he hmade₁)).bind fun e' s₂ h₂ _ he' => ?_
      exact ih he' (by omega) (by omega)

theorem primary (hp : WatchesAll 0 m p q Expr.references) :
    WatchesAll 0 (m + 1) (Parser.primary p) (Watched.primary q) Expr.references := by
  intro s hs
  refine choice (d := 0) rfl (Nat.zero_le _) (failHere _) fun lead t s₁ _ h₁ _ => ?_
  cases lead with
  | constant value => exact pure (List.nil_subset _)
  | literal => exact pure (List.nil_subset _)
  | super =>
    refine (expect (by decide) _).bind fun _ s₂ _ _ _ => ?_
    refine (identifier _).bind fun method s₃ _ _ _ => ?_
    exact node _ fun _ => rfl
  | this => exact node _ fun _ => rfl
  | name => exact (mention _).bind fun r s₂ _ _ hr => pure hr
  | paren =>
    refine (hp s₁ (by omega)).bind fun inner s₂ _ _ hinner => ?_
    exact (expect (by decide) _).bind fun _ s₃ _ hmade₃ _ => pure (List.Subset.trans hinner hmade₃)

theorem operand (hp : WatchesAll 0 m p q Expr.references) :
    WatchesAll 0 (m + 1) (Parser.operand (m + 1) p) (Watched.operand (m + 1) q) Expr.references := by
  intro s hs
  refine unary (fun s₁ h₁ => ?_) (m + 1) hs hs
  exact (primary hp s₁ h₁).bind fun e s₂ h₂ _ he => postfixes hp (m + 1) he (by omega) (by omega)

theorem binary (hp : WatchesAll 0 m p q Expr.references) :
    WatchesAll 0 (m + 1) (Parser.binary (m + 1) p) (Watched.binary (m + 1) q) Expr.references := by
  have hall : ∀ tiers : List (TokenKind → Option BinaryOp), (∀ tier ∈ tiers, tier .eof = none) →
      WatchesAll 0 (m + 1)
        (tiers.foldr (fun tier operand => Parser.chain (m + 1)
          (fun k => (tier k).map fun op l p r => .binary l op p r) operand) (Parser.operand (m + 1) p))
        (tiers.foldr (fun tier operand => Watched.chain (m + 1)
          (fun k => (tier k).map fun op l p r => .binary l op p r) operand) (Watched.operand (m + 1) q))
        Expr.references := by
    intro tiers htiers
    induction tiers with
    | nil => exact operand hp
    | cons tier rest ih =>
      have hrest := ih fun tier h => htiers tier (List.mem_cons_of_mem _ h)
      exact chain (binary_joins (htiers tier List.mem_cons_self)) hrest
  exact hall Parser.binaryTiers (by simp [Parser.binaryTiers])

theorem logical (hp : WatchesAll 0 m p q Expr.references) :
    WatchesAll 0 (m + 1) (Parser.logical (m + 1) p) (Watched.logical (m + 1) q) Expr.references :=
  chain (logical_joins .or (by decide)) (chain (logical_joins .and (by decide)) (binary hp))

end Expressions

/-- What stands in front of an equals sign has its mentions, also if it becomes a target. -/
theorem expression (n : Nat) :
    WatchesAll 0 n (Parser.expression n) (Watched.expression n) Expr.references := by
  induction n with
  | zero => exact fun _ hs => of_bound hs
  | succ n ih =>
    intro s hs
    refine (logical ih s hs).bind fun target s₁ h₁ _ htarget => ?_
    refine choice (d := 0) (by simp) (Nat.zero_le _) (pure htarget) fun _ equals s₂ _ h₂ hmade₂ => ?_
    refine (ih s₂ (by omega)).bind fun value s₃ h₃ hmade₃ hvalue => ?_
    have htarget₃ := List.Subset.trans htarget (List.Subset.trans hmade₂ hmade₃)
    have hother : ∀ e : Expr, e.references ⊆ s₃.made → Watches 0 s₃
        (do
          Parser.report equals.position .invalidAssignmentTarget
          return e)
        (do
          Watched.report equals.position .invalidAssignmentTarget
          return e) Expr.references := fun e he =>
      (report _ _).bind fun _ _ _ hmade _ => pure (List.Subset.trans he hmade)
    cases target with
    | read r =>
      refine (mention r.ident).bind fun r' s₄ _ hmade₄ hr' => pure ?_
      exact List.append_subset.mpr ⟨List.Subset.trans hvalue hmade₄, hr'⟩
    | get object property => exact pure (List.append_subset.mpr ⟨hvalue, htarget₃⟩)
    | _ => exact hother _ htarget₃

/-! ### Statements -/

section Statements

variable {p : Parser Stmt} {q : Watched Stmt} {b : Parser (List Stmt)} {b' : Watched (List Stmt)}

theorem expressionUnless (hn : s.left ≤ n) (kind : TokenKind) :
    Watches 0 s (Parser.expressionUnless n kind) (Watched.expressionUnless n kind)
      (optional Expr.references) := by
  refine checked fun here _ => ?_
  cases here with
  | true => exact pure (List.nil_subset _)
  | false => exact (expression n s hn).bind fun _ _ _ _ he => pure he

theorem initializer (hn : s.left ≤ n) :
    Watches 0 s (Parser.initializer n) (Watched.initializer n) (optional Expr.references) := by
  refine accepted (d := 0) (by decide) (Nat.zero_le _) (pure (List.nil_subset _)) fun s₁ h₁ _ => ?_
  exact (expression n s₁ (by omega)).bind fun _ _ _ _ he => pure he

theorem varDeclaration (hn : s.left ≤ n) :
    Watches 1 s (Parser.varDeclaration n) (Watched.varDeclaration n) Stmt.references := by
  refine (identifier _).bind fun name s₁ h₁ _ _ => ?_
  refine (initializer (by omega)).ended (by decide) fun r s₂ _ _ hr => pure ?_
  cases r <;> exact hr

theorem expressionStatement (hn : s.left ≤ n) :
    Watches 1 s (Parser.expressionStatement n) (Watched.expressionStatement n) Stmt.references :=
  (expression n s hn).ended (by decide) fun _ _ _ _ he => pure he

theorem printStatement (hn : s.left ≤ n) :
    Watches 1 s (Parser.printStatement n) (Watched.printStatement n) Stmt.references :=
  (expression n s hn).ended (by decide) fun _ _ _ _ he => pure he

theorem returnStatement (hn : s.left ≤ n) (keyword : Token) :
    Watches 1 s (Parser.returnStatement n keyword) (Watched.returnStatement n keyword) Stmt.references := by
  refine (expressionUnless hn _).ended (by decide) fun r s₁ _ _ hr => pure ?_
  cases r <;> exact hr

theorem ifStatement (hp : WatchesAll 1 m p q Stmt.references) (hn : s.left ≤ n) (hm : s.left ≤ m) :
    Watches 1 s (Parser.ifStatement n p) (Watched.ifStatement n q) Stmt.references := by
  refine (expect (by decide) _).bind_first fun _ s₁ h₁ _ _ => ?_
  refine ((expression n s₁ (by omega)).ended (by decide) fun condition s₂ h₂ _ hcondition => ?_).weaken
    (Nat.zero_le 1)
  refine (hp s₂ (by omega)).bind fun thenBranch s₃ h₃ hmade₃ hthen => ?_
  have hcondition₃ := List.Subset.trans hcondition hmade₃
  refine accepted (d := 0) (by decide) (Nat.zero_le _) ?_ fun s₄ h₄ hmade₄ => ?_
  · exact pure (List.append_subset.mpr ⟨hcondition₃, hthen⟩)
  · refine (hp s₄ (by omega)).bind fun elseBranch s₅ _ hmade₅ helse => pure ?_
    have hmade := List.Subset.trans hmade₄ hmade₅
    have hbranches := List.append_subset.mpr ⟨List.Subset.trans hthen hmade, helse⟩
    exact List.append_subset.mpr ⟨List.Subset.trans hcondition₃ hmade, hbranches⟩

theorem whileStatement (hp : WatchesAll 1 m p q Stmt.references) (hn : s.left ≤ n) (hm : s.left ≤ m) :
    Watches 1 s (Parser.whileStatement n p) (Watched.whileStatement n q) Stmt.references := by
  refine (expect (by decide) _).bind_first fun _ s₁ h₁ _ _ => ?_
  refine ((expression n s₁ (by omega)).ended (by decide) fun condition s₂ h₂ _ hcondition => ?_).weaken
    (Nat.zero_le 1)
  refine (hp s₂ (by omega)).bind fun body s₃ _ hmade₃ hbody => pure ?_
  exact List.append_subset.mpr ⟨List.Subset.trans hcondition hmade₃, hbody⟩

theorem forInitializer (hn : s.left ≤ n) : Watches 1 s (Parser.forInitializer n) (Watched.forInitializer n)
    (optional Stmt.references) := by
  refine accepted (d := 0) (by decide) (Nat.le_refl 1) ?_ fun _ _ _ => pure (List.nil_subset _)
  refine accepted (d := 1) (by decide) (by decide) ?_ fun s₁ h₁ _ => ?_
  · exact (expressionStatement hn).bind_first fun _ _ _ _ hstmt => pure hstmt
  · exact (varDeclaration (by omega)).bind_first fun _ _ _ _ hstmt => pure hstmt

/-- A loop out of its parts, as a `for` statement puts it together. -/
theorem loop_subset {condition increment : Option Expr} {body : Stmt} {l : List Reference}
    (hcondition : optional Expr.references condition ⊆ l) (hincrement : optional Expr.references increment ⊆ l)
    (hbody : body.references ⊆ l) :
    (Stmt.loop (condition.getD (.constant (.bool true))) body increment).references ⊆ l := by
  have hcondition' : (condition.getD (.constant (.bool true))).references ⊆ l := by
    cases condition <;> exact hcondition
  cases increment with
  | none => exact List.append_subset.mpr ⟨hcondition', hbody⟩
  | some e => exact List.append_subset.mpr ⟨hcondition', List.append_subset.mpr ⟨hbody, hincrement⟩⟩

theorem forStatement (hp : WatchesAll 1 m p q Stmt.references) (hn : s.left ≤ n) (hm : s.left ≤ m) :
    Watches 1 s (Parser.forStatement n p) (Watched.forStatement n q) Stmt.references := by
  refine (expect (by decide) _).bind_first fun _ s₁ h₁ _ _ => ?_
  refine (forInitializer (by omega)).bind fun initializer s₂ h₂ _ hinitializer => ?_
  refine ((expressionUnless (by omega) _).ended (by decide)
    fun condition s₃ h₃ hmade₃ hcondition => ?_).weaken (Nat.zero_le 1)
  refine ((expressionUnless (by omega) _).ended (by decide)
    fun increment s₄ h₄ hmade₄ hincrement => ?_).weaken (Nat.zero_le 1)
  refine (hp s₄ (by omega)).bind fun body s₅ h₅ hmade₅ hbody => ?_
  have hmade := List.Subset.trans hmade₄ hmade₅
  have hloop := loop_subset (List.Subset.trans hcondition hmade) (List.Subset.trans hincrement hmade₅) hbody
  cases initializer with
  | none => exact pure hloop
  | some stmt =>
    have hstmt := List.Subset.trans hinitializer (List.Subset.trans hmade₃ hmade)
    have hlast := List.append_subset.mpr ⟨hloop, List.nil_subset _⟩
    exact pure (List.append_subset.mpr ⟨hstmt, hlast⟩)

theorem statementWith (hp : WatchesAll 1 m p q Stmt.references) (hb : WatchesAll 1 m b b' Stmt.allReferences)
    (hn : s.left ≤ n) (hm : s.left ≤ m + 1) :
    Watches 1 s (Parser.statementWith n p b) (Watched.statementWith n q b') Stmt.references := by
  refine choice (d := 1) rfl (by decide) (expressionStatement hn) fun lead t s₁ _ h₁ _ => ?_
  cases lead with
  | «for» => exact forStatement hp (by omega) (by omega)
  | «if» => exact ifStatement hp (by omega) (by omega)
  | «while» => exact whileStatement hp (by omega) (by omega)
  | «return» => exact returnStatement (by omega) t
  | «break» => exact (expect (by decide) _).bind_first fun _ _ _ _ _ => pure (List.nil_subset _)
  | «continue» => exact (expect (by decide) _).bind_first fun _ _ _ _ _ => pure (List.nil_subset _)
  | block => exact (hb s₁ (by omega)).bind_first fun _ _ _ _ hbody => pure hbody
  | print => exact printStatement (by omega)

/-! ### Functions and classes -/

theorem parametersFrom (n count : Nat) (hn : s.left ≤ n) :
    Watches 0 s (Parser.parametersFrom n count) (Watched.parametersFrom n count) nothing := by
  induction n generalizing s count with
  | zero => exact of_bound hn
  | succ n ih =>
    refine (checkArity _ _).bind fun _ s₁ h₁ _ _ => ?_
    refine (identifier _).bind fun p s₂ h₂ _ _ => ?_
    refine accepted (d := 0) (by decide) (Nat.zero_le _) (pure (List.nil_subset _)) fun s₃ h₃ _ => ?_
    exact (ih (count + 1) (by omega)).bind fun _ _ _ _ _ => pure (List.nil_subset _)

theorem parameters (hn : s.left ≤ n) :
    Watches 0 s (Parser.parameters n) (Watched.parameters n) nothing := by
  refine checked fun closed _ => ?_
  cases closed with
  | true => exact pure (List.nil_subset _)
  | false => exact parametersFrom n 0 hn

theorem function (hb : WatchesAll 1 m b b' Stmt.allReferences) (kind : String) (hn : s.left ≤ n + 1)
    (hm : s.left ≤ m + 1) :
    Watches 1 s (Parser.function n b kind) (Watched.function n b' kind) FunctionDecl.references := by
  refine (identifier _).bind_first fun name s₁ h₁ _ _ => ?_
  refine (expect (by decide) _).bind fun _ s₂ h₂ _ _ => ?_
  refine ((parameters (by omega)).ended (by decide) fun names s₃ h₃ _ _ => ?_).weaken (Nat.zero_le 1)
  refine (expect (by decide) _).bind fun _ s₄ h₄ _ _ => ?_
  refine (hb s₄ (by omega)).bind fun body s₅ h₅ _ hbody => ?_
  exact freshId.bind fun id s₆ _ hmade₆ _ => pure (List.Subset.trans hbody hmade₆)

theorem methodsFrom (hb : WatchesAll 1 m b b' Stmt.allReferences) (n : Nat) (hn : s.left ≤ n)
    (hm : s.left ≤ m) :
    Watches 0 s (Parser.methodsFrom b n) (Watched.methodsFrom b' n) FunctionDecl.allReferences := by
  induction n generalizing s with
  | zero => exact of_bound hn
  | succ n ih =>
    refine checked fun closed _ => checked fun atEnd _ => ?_
    cases closed || atEnd with
    | true => exact pure (List.nil_subset _)
    | false =>
      refine (function hb "method" hn (by omega)).bind fun d s₁ h₁ _ hd => ?_
      refine (ih (by omega) (by omega)).bind fun ds s₂ _ hmade₂ hds => pure ?_
      exact List.append_subset.mpr ⟨List.Subset.trans hd hmade₂, hds⟩

theorem superclass : Watches 0 s Parser.superclass Watched.superclass Option.toList := by
  refine accepted (d := 0) (by decide) (Nat.zero_le _) (pure (List.nil_subset _)) fun s₁ h₁ _ => ?_
  refine (identifier _).bind fun name s₂ h₂ _ _ => ?_
  exact (mention name).bind fun r s₃ _ _ hr => pure hr

theorem classDeclaration (hb : WatchesAll 1 m b b' Stmt.allReferences) (hn : s.left ≤ n) (hm : s.left ≤ m) :
    Watches 1 s (Parser.classDeclaration n b) (Watched.classDeclaration n b') Stmt.references := by
  refine (identifier _).bind fun name s₁ h₁ _ _ => ?_
  refine superclass.ended (by decide) fun parent s₂ h₂ _ hparent => ?_
  refine ((methodsFrom hb n (by omega) (by omega)).ended (by decide)
    fun methods s₃ h₃ hmade₃ hmethods => pure ?_).weaken (Nat.zero_le 1)
  cases parent with
  | none => exact hmethods
  | some r => exact List.append_subset.mpr ⟨List.Subset.trans hparent hmade₃, hmethods⟩

end Statements

end Watches

/-! ### Recovery -/

/-- Skipping takes the cursor to the boundary that the parser finds. -/
theorem skipToBoundary_run {t : Token} (n : Nat) (h : s.Fits) (hn : s.left ≤ n)
    (hprevious : previous.run s = .ok t s) :
    ∃ s', (skipToBoundary n).run s = .ok () s' ∧
      s'.view = { s.view with rest := Parser.skipToBoundary t.kind s.view.rest } ∧ Onwards s s' := by
  induction n generalizing s t with
  | zero =>
    have hinside := h.inside
    unfold State.left at hn
    omega
  | succ n ih =>
    have hboundary : Parser.skipToBoundary t.kind s.view.rest =
        if s.view.front.kind = .eof ∨ t.kind = .semicolon ∨ Parser.beginsStatement s.view.front.kind then
          s.view.rest
        else Parser.skipToBoundary s.view.front.kind (s.tokens.drop (s.current + 1)) := by
      rw [h.rest]
      rfl
    have hstays : s.view.front.kind = .eof ∨ t.kind = .semicolon ∨ Parser.beginsStatement s.view.front.kind →
        s.view = { s.view with rest := Parser.skipToBoundary t.kind s.view.rest } := fun hstop => by
      rw [hboundary, if_pos hstop]
    unfold skipToBoundary
    rw [EStateM.run_bind, peek_run h]
    by_cases heof : s.view.front.kind = .eof
    · exact ⟨s, by simp only [heof, if_true]; rfl, hstays (.inl heof), .refl h⟩
    simp only [heof, if_false]
    rw [EStateM.run_bind, hprevious]
    by_cases hsemicolon : t.kind = .semicolon
    · exact ⟨s, by simp only [hsemicolon, if_true]; rfl, hstays (.inr (.inl hsemicolon)), .refl h⟩
    simp only [hsemicolon, if_false]
    rw [EStateM.run_bind, peek_run h]
    by_cases hbegins : Parser.beginsStatement s.view.front.kind = true
    · exact ⟨s, by simp only [hbegins, if_true]; rfl, hstays (.inr (.inr hbegins)), .refl h⟩
    simp only [hbegins]
    rw [if_neg Bool.false_ne_true, EStateM.run_bind, advance_run h, if_neg heof]
    have hmoved := onwards_moved h heof
    have hleft := left_moved h
    obtain ⟨s', hrun, hview, honwards⟩ :=
      ih (s := s.moved) (t := s.view.front) hmoved.fits (by omega) (look_run h.front)
    refine ⟨s', hrun, ?_, hmoved.trans honwards⟩
    rw [hview, hboundary, if_neg (by simp [heof, hsemicolon, hbegins])]
    rfl

theorem synchronize_run (h : s.Fits) (hn : s.left ≤ n) : ∃ s', (synchronize n).run s = .ok () s' ∧
    s'.view = { s.view with rest := Parser.afterFault s.view.rest } ∧ Onwards s s' ∧
      (s.view.front.kind ≠ .eof → s'.left + 1 ≤ s.left) := by
  have hafter : Parser.afterFault s.view.rest = if s.view.front.kind = .eof then s.view.rest
      else Parser.skipToBoundary s.view.front.kind (s.tokens.drop (s.current + 1)) := by
    rw [h.rest]
    rfl
  unfold synchronize
  rw [EStateM.run_bind, advance_run h]
  by_cases heof : s.view.front.kind = .eof
  · rw [if_pos heof]
    have hinside := h.inside
    obtain ⟨n, rfl⟩ : ∃ m, n = m + 1 := ⟨n - 1, by unfold State.left at hn; omega⟩
    refine ⟨s, ?_, by rw [hafter, if_pos heof], .refl h, fun hne => absurd heof hne⟩
    dsimp only
    unfold skipToBoundary
    rw [EStateM.run_bind, peek_run h]
    simp only [heof, if_true]
    rfl
  · rw [if_neg heof]
    have hmoved := onwards_moved h heof
    have hleft := left_moved h
    obtain ⟨s', hrun, hview, honwards⟩ :=
      skipToBoundary_run (s := s.moved) (t := s.view.front) n hmoved.fits (by omega) (look_run h.front)
    refine ⟨s', hrun, ?_, hmoved.trans honwards, fun _ => ?_⟩
    · rw [hview, hafter, if_neg heof]
      rfl
    · have := honwards.left
      omega

/-! ### Declarations -/

theorem State.Fits.reported (h : s.Fits) (fault : Diagnostic) :
    Onwards s { s with faults := s.faults.push fault } := by
  refine .silent ⟨h.closed, h.inside, h.path, h.sound, fun call hcall => ?_⟩ rfl (Nat.le_refl _) (by simp) rfl rfl
  exact Nat.le_trans (h.kept call hcall) (by simp)

theorem State.Fits.called {call : Call} (h : s.Fits) (hsound : call.Sound s.tokens)
    (hkept : call.after ≤ s.faults.size) : Onwards s { s with calls := s.calls.push call } := by
  refine .silent ⟨h.closed, h.inside, h.path, fun c hc => ?_, fun c hc => ?_⟩ rfl (Nat.le_refl _) (Nat.le_refl _)
    rfl rfl
  · rcases Array.mem_push.mp (Array.mem_toList_iff.mp hc) with hc | rfl
    · exact h.sound c (Array.mem_toList_iff.mpr hc)
    · exact hsound
  · rcases Array.mem_push.mp (Array.mem_toList_iff.mp hc) with hc | rfl
    · exact h.kept c (Array.mem_toList_iff.mpr hc)
    · exact hkept

/-- If no token has been consumed, the same one is in front. -/
theorem Onwards.front_eq (h : Onwards s s') (hs : s.Fits) (hsame : s'.left = s.left) :
    s'.view.front = s.view.front := by
  have htokens := congrArg List.length h.tokens
  have hinside := hs.inside
  have hinside' := h.fits.inside
  have hcurrent : s'.current = s.current := by
    unfold State.left at hsame
    omega
  have htoken := h.fits.front
  rw [hcurrent, h.tokens, hs.front] at htoken
  exact (Option.some.inj htoken).symm

/-- A call that has consumed a token, and reported a fault if there is no statement. -/
theorem Onwards.sound (h : Onwards s s') (hs : s.Fits) (hfront : s.view.front.kind ≠ .eof)
    (hleft : s'.left + 1 ≤ s.left) (stmt : Option Stmt) (hreported : stmt = none → s.faults.size < s'.faults.size) :
    Call.Sound s'.tokens ⟨s.current, s'.current, stmt, s.faults.size, s'.faults.size⟩ := by
  have htokens := congrArg List.length h.tokens
  have hlt := hs.lt_of_front hfront
  have hinside := h.fits.inside
  unfold State.left at hleft
  exact ⟨by dsimp only; omega, by dsimp only; omega, hinside, hreported⟩

/-- The rules succeed side by side, and consume at least `c` tokens. -/
def Succeeds (c : Nat) (s : State) (p : Parser α) (q : Watched α) (held : α → List Reference) : Prop :=
  ∃ a s', p s.view = .ok a s'.view ∧ q s = .ok a s' ∧ Onwards s s' ∧ s'.left + c ≤ s.left ∧
    held a ⊆ s'.made

/-- With up to `m` tokens left, of which the first is not the end of the file, the rules succeed side by side
and consume a token. -/
def SucceedsAll (m : Nat) (p : Parser (Option Stmt)) (q : Watched (Option Stmt)) : Prop :=
  ∀ s : State, s.Fits → s.left ≤ m → s.view.front.kind ≠ .eof → Succeeds 1 s p q (optional Stmt.references)

/-- A rule that recovers succeeds: if it has failed without consuming a token, the recovery consumes one. -/
theorem recovered {p : Parser Stmt} {q : Watched Stmt} (hp : Watches 1 s p q Stmt.references) (h : s.Fits)
    (hn : s.left ≤ n) (hfront : s.view.front.kind ≠ .eof) :
    Succeeds 1 s (Parser.recovering p) (recorded (recovering n q)) (optional Stmt.references) := by
  have hruns := (hp h).runs
  dsimp only [EStateM.run] at hruns
  obtain ⟨stmt, _, _, s₁, hrun, hrun', rfl, rfl, h₁, hleft, hheld⟩ |
    ⟨fault, _, stop, s₁, hrun, hrun', rfl, rfl, h₁⟩ := hruns
  case inl =>
    have hsound := h₁.sound h hfront hleft (some stmt) nofun
    have hcalled := h₁.fits.called hsound (Nat.le_refl _)
    refine ⟨some stmt, _, ?_, ?_, h₁.trans hcalled, hleft, hheld⟩
    · unfold Parser.recovering
      rw [hrun]
      rfl
    · unfold recorded recovering
      rw [hrun']
  case inr =>
    have h₂ := h₁.fits.reported fault
    have hleft₁ := h₁.left
    obtain ⟨s₃, hskip, hview, h₃, hprogress⟩ := synchronize_run (n := n) h₂.fits (Nat.le_trans hleft₁ hn)
    have honwards := (h₁.trans h₂).trans h₃
    have hleft : s₃.left + 1 ≤ s.left := by
      have hleft₃ : s₃.left ≤ s₁.left := h₃.left
      by_cases hsame : s₁.left = s.left
      · -- The rule has failed at the token that it began with.
        have hprogress' : s₃.left + 1 ≤ s₁.left := hprogress ((h₁.front_eq h hsame).symm ▸ hfront)
        omega
      · omega
    have hfaults : s₃.faults = s₁.faults.push fault := congrArg Parser.State.faults hview
    have hmore : s.faults.size < s₃.faults.size := by
      have hfaults₁ := h₁.faults
      rw [hfaults, Array.size_push]
      omega
    have hcalled := h₃.fits.called (honwards.sound h hfront hleft none fun _ => hmore) (Nat.le_refl _)
    refine ⟨none, _, ?_, ?_, honwards.trans hcalled, hleft, List.nil_subset _⟩
    · unfold Parser.recovering
      rw [hrun]
      exact congrArg (EStateM.Result.ok none) hview.symm
    · have hnone : (synchronize n >>= fun _ => (Pure.pure none : Watched (Option Stmt)))
          { s₁ with faults := s₁.faults.push fault } = .ok none s₃ := by
        have hbind := EStateM.run_bind (x := synchronize n)
          (f := fun _ => (Pure.pure none : Watched (Option Stmt)))
          (s := { s₁ with faults := s₁.faults.push fault })
        rw [hskip] at hbind
        exact hbind
      unfold recorded recovering
      rw [hrun']
      dsimp only
      rw [hnone]

theorem Succeeds.watches {p : Parser α} {q : Watched α} {held : α → List Reference}
    (h : Succeeds c s p q held) : Watches c s p q held := by
  obtain ⟨a, s', hp, hq, honwards, hleft, hheld⟩ := h
  intro _
  unfold Agree EStateM.run
  rw [hp, hq]
  exact ⟨rfl, rfl, honwards, hleft, hheld⟩

theorem declarationWith_succeeds {p : Parser Stmt} {q : Watched Stmt} {b : Parser (List Stmt)}
    {b' : Watched (List Stmt)} (hp : WatchesAll 1 m p q Stmt.references)
    (hb : WatchesAll 1 m b b' Stmt.allReferences) (hle : n ≤ m + 1) :
    SucceedsAll n (Parser.declarationWith n p b) (Watched.declarationWith n q b') := by
  intro s hs hn hfront
  refine recovered ?_ hs hn hfront
  refine Watches.choice (d := 1) rfl (by decide) (.statementWith hp hb hn (by omega)) fun lead t s₁ _ h₁ _ => ?_
  cases lead with
  | kwClass => exact .classDeclaration hb (by omega) (by omega)
  | kwFun =>
    exact (Watches.function hb "function" (by omega) (by omega)).bind_first fun _ _ _ _ hd => .pure hd
  | kwVar => exact .varDeclaration (by omega)

section Declarations

variable {p : Parser (Option Stmt)} {q : Watched (Option Stmt)}

/-- The mentions of a declaration, in front of those of others. -/
theorem toList_append_subset {r : Option Stmt} {rest : List Stmt} {l : List Reference}
    (hr : optional Stmt.references r ⊆ l) (hrest : Stmt.allReferences rest ⊆ l) :
    Stmt.allReferences (r.toList ++ rest) ⊆ l := by
  cases r with
  | none => exact hrest
  | some stmt => exact List.append_subset.mpr ⟨hr, hrest⟩

theorem declarationsFrom_watches (hp : SucceedsAll m p q) (n : Nat) (hn : s.left ≤ n) (hm : s.left ≤ m) :
    Watches 0 s (Parser.declarationsFrom p n) (Watched.declarationsFrom q n) Stmt.allReferences := by
  induction n generalizing s with
  | zero => exact .of_bound hn
  | succ n ih =>
    refine .checked fun closed _ => .checked fun atEnd hend => ?_
    cases atEnd with
    | true => rw [Bool.or_true]; exact .pure (List.nil_subset _)
    | false =>
      cases closed with
      | true => exact .pure (List.nil_subset _)
      | false =>
        have hfront : s.view.front.kind ≠ .eof := fun h => by rw [h] at hend; cases hend
        have hdeclaration : Watches 1 s p q (optional Stmt.references) := fun hs =>
          (hp s hs hm hfront).watches hs
        refine hdeclaration.bind fun stmt? s₁ h₁ _ hstmt => ?_
        refine (ih (by omega) (by omega)).bind fun rest s₂ _ hmade₂ hrest => .pure ?_
        exact toList_append_subset (List.Subset.trans hstmt hmade₂) hrest

theorem blockWith_watches (hp : SucceedsAll m p q) :
    WatchesAll 1 m (Parser.blockWith m p) (Watched.blockWith m q) Stmt.allReferences := fun _ hs =>
  (declarationsFrom_watches hp m hs hs).ended (by decide) fun _ _ _ _ hbody => .pure hbody

/-- The loop over the declarations of a program succeeds, and it ends at the end of the file. -/
theorem programFrom_run (hp : SucceedsAll m p q) (n : Nat) (h : s.Fits) (hn : s.left ≤ n) (hm : s.left ≤ m) :
    ∃ body s', (Parser.programFrom p n).run s.view = .ok body s'.view ∧
      (Watched.programFrom q n).run s = .ok body s' ∧ Onwards s s' ∧ s'.view.front.kind = .eof ∧
        Stmt.allReferences body ⊆ s'.made := by
  induction n generalizing s with
  | zero =>
    have hinside := h.inside
    unfold State.left at hn
    omega
  | succ n ih =>
    have hcheck : (Watched.check .eof).run s = .ok (s.view.front.kind == .eof) s := by
      unfold check
      rw [EStateM.run_bind, peek_run h]
      rfl
    have hcheck' : (Parser.check .eof).run s.view = .ok (s.view.front.kind == .eof) s.view := rfl
    unfold Parser.programFrom Watched.programFrom
    rw [EStateM.run_bind, EStateM.run_bind, hcheck, hcheck']
    by_cases hfront : s.view.front.kind = .eof
    · refine ⟨[], s, ?_, ?_, .refl h, hfront, List.nil_subset _⟩ <;> simp [hfront, EStateM.run_pure]
    · obtain ⟨stmt?, s₁, hrun, hrun', h₁, hleft, hstmt⟩ := hp s h hm hfront
      obtain ⟨body, s₂, hbody, hbody', h₂, hend, hrest⟩ := ih h₁.fits (by omega) (by omega)
      have hstep : (p >>= fun stmt? => Parser.programFrom p n >>= fun rest =>
          Pure.pure (stmt?.toList ++ rest)).run s.view = .ok (stmt?.toList ++ body) s₂.view := by
        rw [EStateM.run_bind, show p.run s.view = _ from hrun]
        dsimp only
        rw [EStateM.run_bind, hbody]
        rfl
      have hstep' : (q >>= fun stmt? => Watched.programFrom q n >>= fun rest =>
          Pure.pure (stmt?.toList ++ rest)).run s = .ok (stmt?.toList ++ body) s₂ := by
        rw [EStateM.run_bind, show q.run s = _ from hrun']
        dsimp only
        rw [EStateM.run_bind, hbody']
        rfl
      have hheld := toList_append_subset (List.Subset.trans hstmt h₂.subset) hrest
      refine ⟨stmt?.toList ++ body, s₂, ?_, ?_, h₁.trans h₂, hend, hheld⟩
      · simpa [hfront] using hstep
      · simpa [hfront] using hstep'

end Declarations

theorem statement_block_watch (n : Nat) :
    WatchesAll 1 n (Parser.statement n) (Watched.statement n) Stmt.references ∧
      WatchesAll 1 n (Parser.block n) (Watched.block n) Stmt.allReferences := by
  induction n with
  | zero => exact ⟨fun _ hs => .of_bound hs, fun _ hs => .of_bound hs⟩
  | succ n ih =>
    refine ⟨fun s hs => .statementWith ih.1 ih.2 hs hs, ?_⟩
    exact blockWith_watches (declarationWith_succeeds ih.1 ih.2 (Nat.le_refl _))

theorem declaration_succeeds (n : Nat) : SucceedsAll n (Parser.declaration n) (Watched.declaration n) :=
  declarationWith_succeeds (statement_block_watch n).1 (statement_block_watch n).2 (Nat.le_succ n)

end Watched

end LoxLang
