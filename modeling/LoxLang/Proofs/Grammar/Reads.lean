import LoxLang.Proofs.Grammar.Basic
import LoxLang.Proofs.Syntax.Parsed

/-!
What a rule has read. Nothing is said of it if it fails or has reported a fault, nor if no token is left
behind it, which is how a rule that runs out of its number ends.
-/

namespace LoxLang

namespace Parser

/-- Unless a fault has been reported, what the rule yields and the tokens behind it are as `Q` says. -/
def Reads {α : Type} (s : State) (x : Parser α) (Q : α → List Token → Prop) : Prop :=
  Ends x s (fun a s' => Advances s s' ∧ (s'.faults = #[] → s'.rest ≠ [] → Q a s'.rest))
    fun _ s' => Advances s s'

theorem Advances.clean {s s' : State} (h : Advances s s') (hclean : s'.faults = #[]) : s.faults = #[] := by
  have hfaults := h.faults
  rw [hclean] at hfaults
  exact Array.toList_inj.mp (List.prefix_nil.mp hfaults)

theorem Advances.ne_nil {s s' : State} (h : Advances s s') (hrest : s'.rest ≠ []) : s.rest ≠ [] := by
  intro hnil
  have hsuffix := h.rest
  rw [hnil] at hsuffix
  exact hrest (List.suffix_nil.mp hsuffix)

namespace Reads

variable {α β : Type} {s : State} {x : Parser α} {f : α → Parser β} {Q : α → List Token → Prop}
  {Q' : β → List Token → Prop}

theorem pure {a : α} (h : s.rest ≠ [] → Q a s.rest) : Reads s (Pure.pure a) Q :=
  Ends.pure ⟨.refl, fun _ hrest => h hrest⟩

theorem bind (hx : Reads s x Q) (hf : ∀ a s', s'.rest.length ≤ s.rest.length →
    Reads s' (f a) fun b rest => Q a s'.rest → Q' b rest) : Reads s (x >>= f) Q' := by
  apply Ends.bind hx
  rintro a s₁ ⟨h₁, hQ⟩
  apply (hf a s₁ h₁.rest.length_le).imp
  · rintro b s₂ ⟨h₂, hQ'⟩
    refine ⟨h₁.trans h₂, fun hclean hrest => ?_⟩
    exact hQ' hclean hrest (hQ (h₂.clean hclean) (h₂.ne_nil hrest))
  · intro e s₂ h₂
    exact h₁.trans h₂

theorem imp {Q₂ : α → List Token → Prop} (hx : Reads s x Q) (h : ∀ a rest, Q a rest → Q₂ a rest) :
    Reads s x Q₂ := by
  apply Ends.imp hx
  · rintro a s' ⟨hadvances, hQ⟩
    exact ⟨hadvances, fun hclean hrest => h a _ (hQ hclean hrest)⟩
  · intro e s' hadvances
    exact hadvances

theorem of_nil (hs : s.rest = []) (hx : Ends x s (fun _ s' => Advances s s') fun _ s' => Advances s s') :
    Reads s x Q :=
  hx.imp (fun _ _ h => ⟨h, fun _ hrest => absurd hs (h.ne_nil hrest)⟩) fun _ _ h => h

theorem failHere (fault : GrammarFault) : Reads s (Parser.failHere fault) Q :=
  Ends.get_bind (Ends.throw .refl)

/-- A rule that has reported a fault has read nothing that could be relied on. -/
theorem report (position : Position) (fault : GrammarFault) :
    Reads s (Parser.report position fault) fun _ _ => False :=
  Ends.of_modify ⟨⟨List.suffix_rfl, Nat.le_refl _, by simp, fun _ _ h => h⟩, by simp⟩

theorem checkArity (count : Nat) (fault : GrammarFault) :
    Reads s (Parser.checkArity count fault) fun _ rest => rest = s.rest ∧ count < maxArity := by
  unfold Parser.checkArity
  split
  · have hreport : Reads s (do Parser.report (← peek).position fault) fun _ _ => False :=
      report s.front.position fault
    exact hreport.imp fun _ _ h => h.elim
  case isFalse hcount => exact .pure fun _ => ⟨rfl, Nat.lt_of_not_le hcount⟩

theorem freshId : Reads s Parser.freshId fun _ rest => rest = s.rest :=
  ⟨⟨List.suffix_rfl, Nat.le_succ _, List.prefix_rfl, fun _ _ h => h⟩, fun _ _ => rfl⟩

theorem reference (name : Ident) :
    Reads s (Parser.reference name) fun r rest => rest = s.rest ∧ r.ident = name :=
  freshId.bind fun _ _ _ => .pure fun _ h => ⟨h, rfl⟩

/-- A choice by the token in front. -/
theorem choice {γ : Type} {choose : TokenKind → Option γ} {f : Option (γ × Token) → Parser β}
    (heof : choose .eof = none)
    (hnone : (∀ u us, s.rest = u :: us → choose u.kind = none) → Reads s (f none) Q')
    (hsome : ∀ a u s', s.rest = u :: s'.rest → choose u.kind = some a → Reads s' (f (some (a, u))) Q') :
    Reads s (Parser.acceptWith? choose >>= f) Q' := by
  unfold Reads Ends
  rw [EStateM.run_bind]
  by_cases hchosen : ∃ u us a, s.rest = u :: us ∧ choose u.kind = some a
  · obtain ⟨u, us, a, hrest, hu⟩ := hchosen
    have hnot : u.kind ≠ .eof := fun h => by rw [h, heof] at hu; cases hu
    have hstep : Advances s { s with rest := us } := .consume hrest hnot
    have hnext := hsome a u { s with rest := us } hrest hu
    rw [run_acceptWith?_some hrest hu]
    apply Ends.imp (x := f (some (a, u))) hnext
    · rintro b s' ⟨h, hQ⟩
      exact ⟨hstep.trans h, hQ⟩
    · intro e s' h
      exact hstep.trans h
  · have hnot : ∀ u us, s.rest = u :: us → choose u.kind = none := by
      intro u us hrest
      cases hu : choose u.kind with
      | none => rfl
      | some a => exact absurd ⟨u, us, a, hrest, hu⟩ hchosen
    rw [run_acceptWith?_none hnot]
    exact hnone hnot

theorem accepted {kind : TokenKind} (heof : kind ≠ .eof) {f : Bool → Parser β}
    (hfalse : (∀ u us, s.rest = u :: us → u.kind ≠ kind) → Reads s (f false) Q')
    (htrue : ∀ u s', s.rest = u :: s'.rest → u.kind = kind → Reads s' (f true) Q') :
    Reads s (Parser.accept kind >>= f) Q' := by
  have hchoice : Reads s
      ((Parser.acceptWith? fun k => if k = kind then some () else none) >>= fun r => f r.isSome) Q' := by
    apply choice (if_neg heof.symm)
    · intro hnot
      apply hfalse
      intro u us hrest hu
      simpa [hu] using hnot u us hrest
    · intro a u s' hrest hu
      exact htrue u s' hrest (choose_eq hu)
  unfold Parser.accept
  rw [bind_assoc]
  exact hchoice

theorem expect {kind : TokenKind} (heof : kind ≠ .eof) (what : String) :
    Reads s (Parser.expect kind what) fun t rest => s.rest = t :: rest ∧ t.kind = kind := by
  apply choice (if_neg heof.symm)
  · intro _
    exact failHere _
  · intro a u s' hrest hu
    exact .pure fun _ => ⟨hrest, choose_eq hu⟩

theorem identifier (what : String) : Reads s (Parser.identifier what) fun name rest =>
    ∃ t : Token, s.rest = t :: rest ∧ t.kind = .identifier ∧ name = Grammar.ident t :=
  (expect (by simp) what).bind fun t _ _ => .pure fun _ h => ⟨t, h.1, h.2, rfl⟩

/-- Looking at the kind of the token in front. -/
theorem checked {kind : TokenKind} {f : Bool → Parser β} (h : Reads s (f (s.front.kind == kind)) Q') :
    Reads s (Parser.check kind >>= f) Q' := h

/-- A rule that recovers has reported a fault. -/
theorem recovering {rule : Parser Stmt} {Q : Stmt → List Token → Prop} (h : Reads s rule Q) :
    Reads s (Parser.recovering rule) fun r rest => ∃ stmt, r = some stmt ∧ Q stmt rest := by
  unfold Reads Ends EStateM.run at h ⊢
  unfold Parser.recovering
  cases hrun : rule s with
  | ok stmt s' =>
    rw [hrun] at h
    exact ⟨h.1, fun hclean hrest => ⟨stmt, rfl, h.2 hclean hrest⟩⟩
  | error fault s' =>
    rw [hrun] at h
    have hskip : Advances s' { s' with rest := afterFault s'.rest, faults := s'.faults.push fault } :=
      ⟨afterFault_suffix _, Nat.le_refl _, by simp, fun _ ht hlast => afterFault_endOfFile ht hlast⟩
    exact ⟨h.trans hskip, by simp⟩

end Reads

end Parser

end LoxLang
