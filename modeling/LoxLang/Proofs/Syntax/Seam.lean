import LoxLang.Proofs.Syntax.Move
import LoxLang.Proofs.Syntax.Parsed

/-!
Parsing side by side. Two token lists are compared that are the same, but for a move, up to a seam; behind
it the first one ends and the second one goes on in some way, or both end at it. A rule that succeeds on the
first list without a fault, and without having looked behind the seam, does the same on the second one. If
both lists end at the seam, a rule does the same on both even if it reports faults or fails.
-/

namespace LoxLang

open LoxLang.Parser (Advances)

/-- Two token lists that are the same up to a seam, but for a move. -/
structure Seam where
  move : Move
  /-- What the first list has behind the seam. -/
  tail : List Token
  /-- What the second list has behind the seam. -/
  tail' : List Token
  /-- By how much the numbers are larger that bound the rules on the second list. -/
  extra : Nat
  /-- What has been reported on the second list before. -/
  before : Array Diagnostic
  ends : tail = [] ∧ tail' = [] ∨ ∃ last, tail = [last] ∧ last.kind = .eof

namespace Seam

variable {K : Seam}

/-- Both lists end at the seam. -/
def Sealed (K : Seam) : Prop :=
  K.tail = [] ∧ K.tail' = []

/-- The rest of the first list still reaches to its end, and the second one is as far in its own. -/
structure At (K : Seam) (s t : Parser.State) : Prop where
  rest : ∃ ts, s.rest = ts ++ K.tail ∧ t.rest = ts.map K.move.token ++ K.tail'
  nextId : @Eq Nat t.nextId (s.nextId + K.move.shift)
  faults : t.faults = K.before ++ s.faults.map K.move.diagnostic
  closed : ∃ last : Token, last.kind = .eof ∧ [last] <:+ s.rest

/-- The outcomes `x`, reached from `s` on the first list, and `y` are the same, unless it can make a
difference that the second list goes on behind the seam. A rule that `peeks` may have looked at the token
behind those that it consumed. -/
def Matches {α β : Type} (K : Seam) (peeks : Bool) (φ : α → β) (s : Parser.State)
    (x : EStateM.Result Diagnostic Parser.State α) (y : EStateM.Result Diagnostic Parser.State β) : Prop :=
  match x with
  | .ok a s' =>
    K.Sealed ∨ s'.faults = s.faults ∧ (peeks = true → s'.rest ≠ K.tail) →
      ∃ t', y = .ok (φ a) t' ∧ K.At s' t'
  | .error e s' => K.Sealed → ∃ t', y = .error (K.move.diagnostic e) t' ∧ K.At s' t'

/-- The rule `p` advances from `s`, by at least `c` tokens if it succeeds, and `q` does the same as `p` on
the second list, with results that correspond by `φ`. -/
structure Follows {α β : Type} (K : Seam) (peeks : Bool) (c : Nat) (s : Parser.State) (p : Parser α)
    (q : Parser β) (φ : α → β) : Prop where
  advances : Ends p s (fun _ s' => Advances s s' ∧ s'.rest.length + c ≤ s.rest.length)
    (fun _ s' => Advances s s')
  matched : ∀ t, K.At s t → K.Matches peeks φ s (p.run s) (q.run t)

/-! ### States at the seam -/

section States

variable {s s' t : Parser.State}

theorem At.front_ne (h : K.At s t) : s.rest ≠ [] := by
  obtain ⟨last, _, hlast⟩ := h.closed
  intro hnil
  rw [hnil] at hlast
  simp at hlast

/-- No rule passes the end of the first list. -/
theorem At.closed_of_advances (h : K.At s t) (hadvances : Advances s s') :
    ∃ last : Token, last.kind = .eof ∧ [last] <:+ s'.rest := by
  obtain ⟨last, hkind, hlast⟩ := h.closed
  exact ⟨last, hkind, hadvances.endOfFile last hkind hlast⟩

/-- Once at the seam, always at the seam. -/
theorem rest_of_tail (hclosed : ∃ last : Token, last.kind = .eof ∧ [last] <:+ s.rest)
    (hadvances : Advances s s') (htail : s.rest = K.tail) : s'.rest = K.tail := by
  obtain ⟨last, hkind, hlast⟩ := hclosed
  have hlast := hadvances.endOfFile last hkind hlast
  have hsuffix := hadvances.rest
  rw [htail] at hsuffix
  rcases K.ends with ⟨hnil, _⟩ | ⟨e, he, _⟩
  · rw [hnil] at hsuffix ⊢
    exact List.suffix_nil.mp hsuffix
  · rw [he] at hsuffix ⊢
    refine hsuffix.eq_of_length_le ?_
    exact hlast.length_le

theorem Advances.faults_eq {s₁ s₂ : Parser.State} (h₁ : Advances s s₁) (h₂ : Advances s₁ s₂)
    (h : s₂.faults = s.faults) : s₁.faults = s.faults := by
  have hle := h₂.faults
  rw [h] at hle
  have hlist := h₁.faults.eq_of_length_le hle.length_le
  exact (Array.toList_inj.mp hlist).symm

end States

/-! ### Sequences -/

namespace Follows

variable {α β α' β' : Type} {s : Parser.State} {p : Parser α} {q : Parser β} {f : α → Parser α'}
  {g : β → Parser β'} {φ : α → β} {φ' : α' → β'} {peeks peeks' : Bool} {c c' d : Nat}

theorem pure {a : α} {b : β} (h : φ a = b) : K.Follows peeks 0 s (Pure.pure a) (Pure.pure b) φ :=
  ⟨⟨.refl, Nat.le_refl _⟩, fun t ht _ => ⟨t, by rw [h]; rfl, ht⟩⟩

/-- Rules in sequence. If the first one peeks and the whole does not, the second one has to consume a
token. -/
theorem sequence (hend : peeks = true → peeks' = true ∨ 0 < c') (hp : K.Follows peeks c s p q φ)
    (hf : ∀ a s', s'.rest.length + c ≤ s.rest.length → K.Follows peeks' c' s' (f a) (g (φ a)) φ') :
    K.Follows peeks' (c + c') s (p >>= f) (q >>= g) φ' := by
  have hadvances := hp.advances
  refine ⟨?_, fun t ht => ?_⟩
  · refine hp.advances.bind fun a s₁ h₁ => ?_
    refine ((hf a s₁ h₁.2).advances).imp (fun b s₂ h₂ => ⟨h₁.1.trans h₂.1, ?_⟩) fun e s₂ h₂ => h₁.1.trans h₂
    have := h₁.2
    have := h₂.2
    omega
  · have hmatched := hp.matched t ht
    unfold Ends at hadvances
    rw [EStateM.run_bind, EStateM.run_bind]
    cases hrun : p.run s with
    | error e s₁ =>
      rw [hrun] at hmatched
      intro hsealed
      obtain ⟨t₁, hq, ht₁⟩ := hmatched hsealed
      exact ⟨t₁, by rw [hq], ht₁⟩
    | ok a s₁ =>
      rw [hrun] at hmatched hadvances
      obtain ⟨h₁, hlength⟩ := hadvances
      have hnext := hf a s₁ hlength
      have hends := hnext.advances
      dsimp only
      cases hrun' : (f a).run s₁ with
      | error e s₂ =>
        intro hsealed
        obtain ⟨t₁, hq, ht₁⟩ := hmatched (.inl hsealed)
        have hlast := hnext.matched t₁ ht₁
        rw [hrun'] at hlast
        rw [hq]
        exact hlast hsealed
      | ok b s₂ =>
        unfold Ends at hends
        rw [hrun'] at hends
        intro hsmooth
        have hfirst : K.Sealed ∨ s₁.faults = s.faults ∧ (peeks = true → s₁.rest ≠ K.tail) := by
          refine hsmooth.imp_right fun h => ⟨Advances.faults_eq h₁ hends.1 h.1, fun hpeeks htail => ?_⟩
          obtain ⟨last, _, hlast⟩ := ht.closed_of_advances (h₁.trans hends.1)
          rcases hend hpeeks with hpeeks' | hc
          · exact h.2 hpeeks' (rest_of_tail (ht.closed_of_advances h₁) hends.1 htail)
          · have hlength := hends.2
            rw [rest_of_tail (ht.closed_of_advances h₁) hends.1 htail, htail] at hlength
            omega
        obtain ⟨t₁, hq, ht₁⟩ := hmatched hfirst
        have hlast := hnext.matched t₁ ht₁
        rw [hrun'] at hlast
        rw [hq]
        refine hlast (hsmooth.imp_right fun h => ⟨?_, h.2⟩)
        exact h.1.trans (Advances.faults_eq h₁ hends.1 h.1).symm

theorem weaken (hp : K.Follows peeks c s p q φ) (hpeeks : peeks = true → peeks' = true)
    (hc : c' ≤ c) : K.Follows peeks' c' s p q φ := by
  refine ⟨hp.advances.imp (fun a s' h => ⟨h.1, by omega⟩) fun _ _ h => h, fun t ht => ?_⟩
  have hmatched := hp.matched t ht
  unfold Matches at hmatched ⊢
  split at hmatched
  · exact fun hsmooth => hmatched (hsmooth.imp_right fun h => ⟨h.1, fun hp => h.2 (hpeeks hp)⟩)
  · exact hmatched

/-- A rule in front of another one. Both peek, or neither does. -/
theorem bind (hp : K.Follows peeks c s p q φ)
    (hf : ∀ a s', s'.rest.length + c ≤ s.rest.length → K.Follows peeks c' s' (f a) (g (φ a)) φ') :
    K.Follows peeks c' s (p >>= f) (q >>= g) φ' :=
  (sequence (fun h => .inl h) hp hf).weaken (fun h => h) (Nat.le_add_left c' c)

/-- The tokens that the first rule consumes are enough for both. -/
theorem bind_first (hp : K.Follows peeks c s p q φ)
    (hf : ∀ a s', s'.rest.length + c ≤ s.rest.length → K.Follows peeks 0 s' (f a) (g (φ a)) φ') :
    K.Follows peeks c s (p >>= f) (q >>= g) φ' :=
  sequence (fun h => .inl h) hp hf

/-- A rule that peeks in front of one that consumes a token. -/
theorem bind_end (hp : K.Follows true c s p q φ)
    (hf : ∀ a s', s'.rest.length + c ≤ s.rest.length →
      K.Follows peeks (c' + 1) s' (f a) (g (φ a)) φ') :
    K.Follows peeks (c' + 1) s (p >>= f) (q >>= g) φ' :=
  (sequence (fun _ => .inr (Nat.succ_pos c')) hp hf).weaken (fun h => h) (Nat.le_add_left _ c)

/-! ### Tokens -/

theorem freshId : K.Follows peeks 0 s Parser.freshId Parser.freshId (· + K.move.shift) := by
  refine ⟨⟨⟨List.suffix_rfl, Nat.le_succ _, List.prefix_rfl, fun _ _ h => h⟩, Nat.le_refl _⟩, ?_⟩
  intro t ht _
  refine ⟨{ t with nextId := t.nextId + 1 }, ?_, ht.rest, ?_, ht.faults, ht.closed⟩
  · exact congrArg (fun id => EStateM.Result.ok id { t with nextId := t.nextId + 1 }) ht.nextId
  · have := ht.nextId
    simp only
    omega

theorem reference (x : Ident) :
    K.Follows peeks 0 s (Parser.reference x) (Parser.reference (K.move.ident x))
      K.move.reference :=
  freshId.bind fun _ _ _ => pure rfl

/-- Where both lists end at the seam, there is a token in front. -/
theorem front_of_sealed {t : Parser.State} (ht : K.At s t) (hsealed : K.Sealed) :
    t.front = K.move.token s.front := by
  obtain ⟨ts, hs, ht'⟩ := ht.rest
  rw [hsealed.1, List.append_nil] at hs
  rw [hsealed.2, List.append_nil] at ht'
  unfold Parser.State.front
  cases ts with
  | nil => exact absurd hs ht.front_ne
  | cons u us => rw [hs, ht']; rfl

theorem failHere {γ δ : Type} (fault : GrammarFault) {φ : γ → δ} :
    K.Follows peeks c s (Parser.failHere fault) (Parser.failHere fault) φ := by
  have hrun : ∀ {γ : Type} (t : Parser.State), (Parser.failHere fault : Parser γ).run t =
      .error ⟨t.front.position, .grammar fault, none⟩ t := fun t => rfl
  refine ⟨?_, fun t ht => ?_⟩
  · unfold Ends
    rw [hrun]
    exact .refl
  · rw [hrun, hrun]
    intro hsealed
    rw [front_of_sealed ht hsealed]
    exact ⟨t, rfl, ht⟩

/-- Reporting a fault at a place or, on the second list, where that has been moved to. -/
theorem report {p q : Position} (fault : GrammarFault)
    (hpq : ∀ t, K.At s t → K.Sealed → q = K.move.place p) :
    K.Follows peeks 0 s (Parser.report p fault) (Parser.report q fault) id := by
  refine ⟨⟨⟨List.suffix_rfl, Nat.le_refl _, by simp, fun _ _ h => h⟩, Nat.le_refl _⟩, ?_⟩
  intro t ht hsmooth
  refine ⟨{ t with faults := t.faults.push ⟨q, .grammar fault, none⟩ }, rfl, ht.rest, ht.nextId, ?_,
    ht.closed⟩
  rcases hsmooth with hsealed | ⟨hfaults, _⟩
  · rw [hpq t ht hsealed, Array.map_push, Array.append_push, ← ht.faults]
    rfl
  · exact absurd (congrArg Array.size hfaults) (by simp)

theorem checkArity (count : Nat) (fault : GrammarFault) :
    K.Follows peeks 0 s (Parser.checkArity count fault) (Parser.checkArity count fault) id := by
  unfold Parser.checkArity
  split
  · have hreport : ∀ t, K.At s t → K.Follows peeks 0 s (Parser.report s.front.position fault)
        (Parser.report t.front.position fault) id := fun t ht =>
      report fault fun _ _ hsealed => by rw [front_of_sealed ht hsealed]; rfl
    refine ⟨?_, fun t ht => (hreport t ht).matched t ht⟩
    exact ⟨⟨List.suffix_rfl, Nat.le_refl _, by simp, fun _ _ h => h⟩, Nat.le_refl _⟩
  · exact pure rfl

/-- At the seam there is nothing to match: the first list has only its end left, so a rule that peeks has
looked behind the seam, and one that consumes a token does not succeed. -/
theorem matches_of_tail {y : EStateM.Result Diagnostic Parser.State β} {t : Parser.State} (ht : K.At s t)
    (htail : s.rest = K.tail) (hp : Ends p s (fun _ s' => Advances s s' ∧ s'.rest.length + c ≤ s.rest.length)
      fun _ s' => Advances s s') (hseam : peeks = true ∨ 0 < c) : K.Matches peeks φ s (p.run s) y := by
  have hopen : ¬ K.Sealed := fun h => ht.front_ne (htail.trans h.1)
  unfold Ends at hp
  unfold Matches
  cases hrun : p.run s with
  | error e s' => exact fun h => absurd h hopen
  | ok a s' =>
    rw [hrun] at hp
    have hrest := rest_of_tail ht.closed hp.1 htail
    rintro (h | ⟨_, h⟩)
    · exact absurd h hopen
    · rcases hseam with hpeeks | hc
      · exact absurd hrest (h hpeeks)
      · have := hp.2
        rw [hrest, htail] at this
        omega

section Choice

variable {γ : Type} {choose : TokenKind → Option γ}

/-- A choice by the token in front. At the seam the first list has no choice; then the whole rule has to
peek or to consume a token, or the second list has no choice there either. -/
theorem choice (heof : choose .eof = none) {f : Option (γ × Token) → Parser α'}
    {g : Option (γ × Token) → Parser β'}
    (hseam : peeks = true ∨ 0 < c ∨ ∀ y ys, K.tail' = y :: ys → choose y.kind = none)
    (hc : c ≤ d + 1) (hnone : K.Follows peeks c s (f none) (g none) φ')
    (hsome : ∀ a u s', choose u.kind = some a → s'.rest.length + 1 ≤ s.rest.length →
      K.Follows peeks d s' (f (some (a, u))) (g (some (a, K.move.token u))) φ') :
    K.Follows peeks c s (Parser.acceptWith? choose >>= f) (Parser.acceptWith? choose >>= g) φ' := by
  by_cases hchosen : ∃ u us a, s.rest = u :: us ∧ choose u.kind = some a
  · obtain ⟨u, us, a, hrest, hu⟩ := hchosen
    have hnot : u.kind ≠ .eof := fun h => by rw [h, heof] at hu; cases hu
    have hstep : Advances s { s with rest := us } := .consume hrest hnot
    have hnext := hsome a u { s with rest := us } hu (by rw [hrest]; exact Nat.le_refl _)
    have hrun := Parser.run_acceptWith?_some hrest hu
    refine ⟨?_, fun t ht => ?_⟩
    · have hends := hnext.advances
      unfold Ends at hends ⊢
      rw [EStateM.run_bind, hrun]
      refine Ends.imp (x := f (some (a, u))) hends ?_ ?_
      · rintro b s' ⟨hb, hlength⟩
        refine ⟨hstep.trans hb, ?_⟩
        rw [hrest, List.length_cons]
        dsimp only at hlength
        omega
      · exact fun e s' he => hstep.trans he
    · obtain ⟨ts, hs, ht'⟩ := ht.rest
      cases ts with
      | nil =>
        rw [List.nil_append, hrest] at hs
        rcases K.ends with ⟨hnil, _⟩ | ⟨last, htail, hlast⟩
        · rw [hnil] at hs
          cases hs
        · rw [htail] at hs
          cases hs
          exact absurd hlast hnot
      | cons v ts =>
        rw [hrest] at hs
        cases hs
        have hat : K.At { s with rest := ts ++ K.tail } { t with rest := ts.map K.move.token ++ K.tail' } :=
          ⟨⟨ts, rfl, rfl⟩, ht.nextId, ht.faults, ht.closed_of_advances hstep⟩
        have hmoved : (Parser.acceptWith? choose).run t = .ok (some (a, K.move.token u))
            { t with rest := ts.map K.move.token ++ K.tail' } := Parser.run_acceptWith?_some ht' hu
        rw [EStateM.run_bind, EStateM.run_bind, hrun, hmoved]
        exact hnext.matched _ hat
  · have hrun : (Parser.acceptWith? choose).run s = .ok none s := Parser.run_acceptWith?_none fun u us hrest => by
      cases hu : choose u.kind with
      | none => rfl
      | some a => exact absurd ⟨u, us, a, hrest, hu⟩ hchosen
    have hends : Ends (Parser.acceptWith? choose >>= f) s
        (fun _ s' => Advances s s' ∧ s'.rest.length + c ≤ s.rest.length) fun _ s' => Advances s s' := by
      unfold Ends
      rw [EStateM.run_bind, hrun]
      exact hnone.advances
    refine ⟨hends, fun t ht => ?_⟩
    · obtain ⟨ts, hs, ht'⟩ := ht.rest
      have hrefused : (∀ u us, t.rest = u :: us → choose u.kind = none) →
          K.Matches peeks φ' s ((Parser.acceptWith? choose >>= f).run s)
            ((Parser.acceptWith? choose >>= g).run t) := by
        intro h
        rw [EStateM.run_bind, EStateM.run_bind, hrun, Parser.run_acceptWith?_none h]
        exact hnone.matched t ht
      cases ts with
      | cons v ts =>
        refine hrefused fun u us hu => ?_
        rw [ht', List.map_cons, List.cons_append] at hu
        cases hu
        cases hv : choose v.kind with
        | none => exact hv
        | some a => exact absurd ⟨v, _, a, hs, hv⟩ hchosen
      | nil =>
        rcases hseam with hpeeks | hc | hrefuses
        · exact matches_of_tail ht hs hends (.inl hpeeks)
        · exact matches_of_tail ht hs hends (.inr hc)
        · exact hrefused fun u us hu => hrefuses u us (ht'.symm.trans hu)

theorem accepted {kind : TokenKind} (heof : kind ≠ .eof) {f : Bool → Parser α'} {g : Bool → Parser β'}
    (hseam : peeks = true ∨ 0 < c ∨ ∀ y ys, K.tail' = y :: ys → y.kind ≠ kind) (hc : c ≤ d + 1)
    (hfalse : K.Follows peeks c s (f false) (g false) φ')
    (htrue : ∀ s', s'.rest.length + 1 ≤ s.rest.length →
      K.Follows peeks d s' (f true) (g true) φ') :
    K.Follows peeks c s (Parser.accept kind >>= f) (Parser.accept kind >>= g) φ' := by
  have hchoice : K.Follows peeks c s
      ((Parser.acceptWith? fun k => if k = kind then some () else none) >>= fun r => f r.isSome)
      ((Parser.acceptWith? fun k => if k = kind then some () else none) >>= fun r => g r.isSome) φ' := by
    refine choice (if_neg heof.symm) ?_ hc hfalse fun _ _ s' _ hs' => htrue s' hs'
    exact hseam.imp_right fun h => h.imp_right fun h y ys hy => if_neg (h y ys hy)
  unfold Parser.accept
  rw [bind_assoc, bind_assoc]
  exact hchoice

theorem expect {kind : TokenKind} (heof : kind ≠ .eof) (what : String) :
    K.Follows peeks 1 s (Parser.expect kind what) (Parser.expect kind what) K.move.token :=
  choice (if_neg heof.symm) (.inr (.inl Nat.one_pos)) (Nat.le_refl 1) (failHere _) fun _ _ _ _ _ => pure rfl

theorem identifier (what : String) :
    K.Follows peeks 1 s (Parser.identifier what) (Parser.identifier what) K.move.ident :=
  bind_first (expect (by decide) what) fun _ _ _ => pure rfl

end Choice

/-- Looking at the kind of the token in front. -/
theorem checked {kind : TokenKind} {f : Bool → Parser α'} {g : Bool → Parser β'}
    (h : ∀ b, b = (s.front.kind == kind) → K.Follows true c s (f b) (g b) φ') :
    K.Follows true c s (Parser.check kind >>= f) (Parser.check kind >>= g) φ' := by
  have hnext := h _ rfl
  have hrun : ∀ {γ : Type} (t : Parser.State) (k : Bool → Parser γ),
      (Parser.check kind >>= k).run t = (k (t.front.kind == kind)).run t := fun t k => rfl
  have hends : Ends (Parser.check kind >>= f) s
      (fun _ s' => Advances s s' ∧ s'.rest.length + c ≤ s.rest.length) fun _ s' => Advances s s' :=
    hnext.advances
  refine ⟨hends, fun t ht => ?_⟩
  obtain ⟨ts, hs, ht'⟩ := ht.rest
  cases ts with
  | nil => exact matches_of_tail ht hs hends (.inl rfl)
  | cons u ts =>
    have hfront : t.front.kind = s.front.kind := by
      unfold Parser.State.front
      rw [hs, ht']
      rfl
    rw [hrun, hrun, hfront]
    exact hnext.matched t ht

/-- Without tokens there is nothing to match. -/
theorem of_nil (hs : s.rest = []) (hp : Ends p s (fun _ s' => Advances s s' ∧ s'.rest.length + c ≤ s.rest.length)
    fun _ s' => Advances s s') : K.Follows peeks c s p q φ :=
  ⟨hp, fun _ ht => absurd hs ht.front_ne⟩

end Follows

end Seam

end LoxLang
