import LoxLang.Proofs.Grammar.Derivations
import LoxLang.Proofs.Grammar.Reads

/-!
What is read without a fault belongs to the grammar. Each rule is used with a number that is at least the
number of tokens left. Rules that go on with something that has been read already say which tokens the whole
stands for.
-/

namespace LoxLang

namespace Grammar

open LoxLang.Parser (Reads)

/-- The tokens in front are read as something that they stand for. -/
def Spans {α : Type} (D : List Token → α → Prop) (before : List Token) (a : α) (rest : List Token) : Prop :=
  ∃ ts, before = ts ++ rest ∧ D ts a

/-- The tokens behind some others are read, and all of them stand for the result. -/
def Extends {α : Type} (D : List Token → α → Prop) (front before : List Token) (a : α)
    (rest : List Token) : Prop :=
  ∃ ts, before = ts ++ rest ∧ D (front ++ ts) a

end Grammar

namespace Parser

open LoxLang.Grammar

/-! ### Expressions -/

/-- On up to `m` tokens, the rule reads what `D` says. -/
def ReadsAs {α : Type} (D : List Token → α → Prop) (m : Nat) (p : Parser α) : Prop :=
  ∀ s : State, s.rest.length ≤ m → Reads s p (Spans D s.rest)

theorem length_of_cons {s s' : State} {t : Token} (h : s.rest = t :: s'.rest) :
    s.rest.length = s'.rest.length + 1 := by
  rw [h]
  rfl

theorem front_of_cons {s : State} {t : Token} {ts : List Token} (h : s.rest = t :: ts) : s.front = t := by
  unfold State.front
  rw [h]
  rfl

namespace Reads

section Expressions

variable {s : State} {p : Parser Expr} {m : Nat}

theorem chainFrom {choose : TokenKind → Option Join} {tier : Tier} {stronger : List Tier}
    (hoffers : Offers choose tier) (hp : ReadsAs (Chain stronger) m p) (n : Nat) (left : Expr)
    (hn : s.rest.length ≤ n) (hm : s.rest.length ≤ m) :
    Reads s (Parser.chainFrom choose p n left) fun e rest =>
      ∀ front, Chain (tier :: stronger) front left →
        Extends (Chain (tier :: stronger)) front s.rest e rest := by
  induction n generalizing s left with
  | zero => exact of_nil (nil_of_length hn) (Ends.pure .refl)
  | succ n ih =>
    apply choice hoffers.endOfFile
    · intro _
      exact .pure fun _ front hfront => ⟨[], rfl, by simpa using hfront⟩
    · intro f op s₁ hrest hf
      have hlength := length_of_cons hrest
      apply (hp s₁ (by omega)).bind
      intro right s₂ hle
      apply (ih (f left op.position right) (by omega) (by omega)).imp
      rintro e rest hnext ⟨ts, hts, hright⟩ front hfront
      obtain ⟨us, hus, he⟩ := hnext (front ++ op :: ts) (.join hfront ((hoffers.iff _ _).mp hf) hright)
      exact ⟨op :: (ts ++ us), by simp [hrest, hts, hus], by simpa using he⟩

theorem chain {choose : TokenKind → Option Join} {tier : Tier} {stronger : List Tier}
    (hoffers : Offers choose tier) (hp : ReadsAs (Chain stronger) m p) :
    ReadsAs (Chain (tier :: stronger)) m (Parser.chain m choose p) := by
  intro s hs
  apply (hp s hs).bind
  intro left s₁ hle
  apply (chainFrom hoffers hp m left (by omega) (by omega)).imp
  rintro e rest hnext ⟨ts, hts, hleft⟩
  obtain ⟨us, hus, he⟩ := hnext ts (.single hleft)
  exact ⟨ts ++ us, by simp [hts, hus], he⟩

theorem unary (hp : ReadsAs Call m p) (n : Nat) (hn : s.rest.length ≤ n) (hm : s.rest.length ≤ m) :
    Reads s (Parser.unary p n) (Spans Unary s.rest) := by
  have hcall := (hp s hm).imp fun e rest ⟨ts, hts, he⟩ => (⟨ts, hts, .call he⟩ : Spans Unary s.rest e rest)
  induction n generalizing s with
  | zero => exact hcall
  | succ n ih =>
    apply choice rfl
    · intro _
      exact hcall
    · intro op t s₁ hrest hop
      have hlength := length_of_cons hrest
      have hm₁ : s₁.rest.length ≤ m := by omega
      apply (ih (by omega) hm₁ ((hp s₁ hm₁).imp fun e rest ⟨ts, hts, he⟩ => ⟨ts, hts, .call he⟩)).bind
      intro e s₂ _
      apply Reads.pure
      rintro _ ⟨ts, hts, he⟩
      exact ⟨t :: ts, by simp [hrest, hts], .apply (unaryOp?_iff.mp hop) he⟩

theorem argumentsFrom (hp : ReadsAs Expression m p) (n count : Nat) (hn : s.rest.length ≤ n)
    (hm : s.rest.length ≤ m) : Reads s (Parser.argumentsFrom p n count) fun es rest =>
      Spans Arguments s.rest es rest ∧ count + es.length ≤ maxList := by
  induction n generalizing s count with
  | zero => exact of_nil (nil_of_length hn) (Ends.pure .refl)
  | succ n ih =>
    apply (checkArity _ _).bind
    intro _ s₀ h₀
    apply (hp s₀ (by omega)).bind
    intro e s₁ h₁
    apply accepted (by simp)
    · intro _
      apply Reads.pure
      rintro _ ⟨ts, hts, he⟩ ⟨hrest, hcount⟩
      exact ⟨⟨ts, hrest ▸ hts, .last he⟩, hcount⟩
    · intro comma s₂ h₂ hcomma
      have hlength := length_of_cons h₂
      apply (ih (count + 1) (by omega) (by omega)).bind
      intro es s₃ _
      apply Reads.pure
      rintro _ ⟨⟨us, hus, hes⟩, hmax⟩ ⟨ts, hts, he⟩ ⟨hrest, _⟩
      refine ⟨⟨ts ++ comma :: us, ?_, .more he hcomma hes⟩, ?_⟩
      · simp [← hrest, hts, h₂, hus]
      · rw [List.length_cons]
        omega

theorem arguments (hp : ReadsAs Expression m p) {n : Nat} (hn : s.rest.length ≤ n)
    (hm : s.rest.length ≤ m) : Reads s (Parser.arguments n p) fun es rest =>
      Spans ArgumentList s.rest es rest ∧ es.length ≤ maxList := by
  apply checked
  cases s.front.kind == .rightParen with
  | true => exact .pure fun _ => ⟨⟨[], rfl, .none⟩, Nat.zero_le _⟩
  | false =>
    apply (argumentsFrom hp n 0 hn hm).imp
    rintro es rest ⟨⟨ts, hts, hes⟩, hmax⟩
    exact ⟨⟨ts, hts, .some hes⟩, by omega⟩

theorem finishCall (hp : ReadsAs Expression m p) {n : Nat} (hn : s.rest.length ≤ n)
    (hm : s.rest.length ≤ m) (callee : Expr) :
    Reads s (Parser.finishCall n p callee) fun e rest => ∀ front opening,
      Call front callee → opening.kind = .leftParen → Extends Call (front ++ [opening]) s.rest e rest := by
  apply (arguments hp hn hm).bind
  intro es s₁ _
  apply (expect (by simp) _).bind
  intro closing s₂ _
  apply Reads.pure
  rintro _ ⟨hclosing, hkind⟩ ⟨⟨ts, hts, hes⟩, hmax⟩ front opening hfront hopening
  refine ⟨ts ++ [closing], by simp [hts, hclosing], ?_⟩
  simpa using Call.call hfront hopening hes hmax hkind

theorem postfixes (hp : ReadsAs Expression m p) (n : Nat) (e : Expr) (hn : s.rest.length ≤ n)
    (hm : s.rest.length ≤ m + 1) : Reads s (Parser.postfixes p n e) fun e' rest =>
      ∀ front, Call front e → Extends Call front s.rest e' rest := by
  induction n generalizing s e with
  | zero => exact of_nil (nil_of_length hn) (Ends.pure .refl)
  | succ n ih =>
    apply accepted (by simp)
    · intro _
      apply accepted (by simp)
      · intro _
        exact .pure fun _ front hfront => ⟨[], rfl, by simpa using hfront⟩
      · intro dot s₁ h₁ hdot
        have hlength := length_of_cons h₁
        apply (identifier _).bind
        intro name s₂ h₂
        apply (ih (.get e name) (by omega) (by omega)).imp
        rintro e' rest hnext ⟨t, ht, hkind, rfl⟩ front hfront
        obtain ⟨ts, hts, he'⟩ := hnext (front ++ [dot, t]) (.get hfront hdot hkind)
        exact ⟨dot :: t :: ts, by simp [h₁, ht, hts], by simpa using he'⟩
    · intro opening s₁ h₁ hopening
      have hlength := length_of_cons h₁
      apply (finishCall hp (by omega) (by omega) e).bind
      intro e₁ s₂ h₂
      apply (ih e₁ (by omega) (by omega)).imp
      rintro e' rest hnext hcall front hfront
      obtain ⟨ts, hts, he₁⟩ := hcall front opening hfront hopening
      obtain ⟨us, hus, he'⟩ := hnext _ he₁
      exact ⟨opening :: (ts ++ us), by simp [h₁, hts, hus], by simpa using he'⟩

theorem primary (hp : ReadsAs Expression m p) : ReadsAs Primary (m + 1) (Parser.primary p) := by
  intro s hs
  apply choice rfl
  · intro _
    exact failHere _
  · intro lead t s₁ h₁ hlead
    have hlength := length_of_cons h₁
    cases lead with
    | constant value => exact .pure fun _ => ⟨[t], h₁, .constant ((lead?_iff _).mp hlead)⟩
    | literal => exact .pure fun _ => ⟨[t], h₁, .literal ((lead?_iff _).mp hlead)⟩
    | super =>
      apply (expect (by simp) _).bind
      intro dot s₂ _
      apply (identifier _).bind
      intro method s₃ _
      apply freshId.bind
      intro id s₄ _
      apply Reads.pure
      rintro _ h₄ ⟨name, h₃, hname, rfl⟩ ⟨h₂, hdot⟩
      refine ⟨[t, dot, name], by simp [h₁, h₂, h₃, h₄], .super id ((lead?_iff _).mp hlead) hdot hname⟩
    | this =>
      apply freshId.bind
      intro id s₂ _
      exact .pure fun _ h₂ => ⟨[t], by simp [h₁, h₂], .this id ((lead?_iff _).mp hlead)⟩
    | name =>
      apply (reference _).bind
      intro r s₂ _
      apply Reads.pure
      rintro _ ⟨h₂, hr⟩
      cases r with
      | mk id name =>
        subst hr
        exact ⟨[t], by simp [h₁, h₂], .name id ((lead?_iff _).mp hlead)⟩
    | paren =>
      apply (hp s₁ (by omega)).bind
      intro inner s₂ _
      apply (expect (by simp) _).bind
      intro closing s₃ _
      apply Reads.pure
      rintro _ ⟨h₃, hclosing⟩ ⟨ts, hts, hinner⟩
      exact ⟨t :: (ts ++ [closing]), by simp [h₁, hts, h₃], .grouping ((lead?_iff _).mp hlead) hinner hclosing⟩

theorem operand (hp : ReadsAs Expression m p) :
    ReadsAs Unary (m + 1) (Parser.operand (m + 1) p) := by
  intro s hs
  apply unary _ (m + 1) hs hs
  intro s₁ h₁
  apply (primary hp s₁ h₁).bind
  intro e s₂ h₂
  apply (postfixes hp (m + 1) e (by omega) (by omega)).imp
  rintro e' rest hnext ⟨ts, hts, he⟩
  obtain ⟨us, hus, he'⟩ := hnext ts (.primary he)
  exact ⟨ts ++ us, by simp [hts, hus], he'⟩

theorem logical (hp : ReadsAs Expression m p) :
    ReadsAs (Chain tiers) (m + 1) (Parser.logical (m + 1) p) := by
  have hall : ∀ (choices : List (TokenKind → Option Join)) (tiers : List Tier),
      List.Forall₂ Offers choices tiers → ReadsAs (Chain tiers) (m + 1)
        (choices.foldr (Parser.chain (m + 1)) (Parser.operand (m + 1) p)) := by
    intro choices tiers h
    induction h with
    | nil =>
      intro s hs
      exact (operand hp s hs).imp fun _ _ ⟨ts, hts, he⟩ => ⟨ts, hts, .operand he⟩
    | cons hoffers _ ih => exact chain hoffers ih
  rw [logical_eq]
  exact hall choices tiers choices_offer

end Expressions

/-- An expression. What has been read in front of an equals sign is looked at only afterwards. -/
theorem expression (n : Nat) : ReadsAs Expression n (Parser.expression n) := by
  induction n with
  | zero => exact fun s hs => of_nil (nil_of_length hs) (Ends.get_bind (Ends.throw .refl))
  | succ n ih =>
    intro s hs
    apply (logical ih s hs).bind
    intro target s₁ h₁
    apply choice (by simp)
    · intro _
      exact .pure fun _ ⟨ts, hts, htarget⟩ => ⟨ts, hts, .value htarget⟩
    · intro _ equals s₂ h₂ hchosen
      have hequals := choose_eq hchosen
      have hlength := length_of_cons h₂
      apply (ih s₂ (by omega)).bind
      intro value s₃ h₃
      cases target with
      | read r =>
        apply (reference r.ident).bind
        intro r' s₄ _
        apply Reads.pure
        rintro _ ⟨h₄, hr'⟩ ⟨vs, hvs, hvalue⟩ ⟨ts, hts, htarget⟩
        obtain ⟨t, rfl, hname, hr⟩ := htarget.of_read
        cases r' with
        | mk id name =>
          have hident : name = ident t := hr'.trans hr
          subst hident
          exact ⟨t :: equals :: vs, by simp [hts, h₂, hvs, h₄], .assign id hname hequals hvalue⟩
      | get object property =>
        apply Reads.pure
        rintro _ ⟨vs, hvs, hvalue⟩ ⟨ts, hts, htarget⟩
        obtain ⟨us, dot, name, rfl, hobject, hdot, hname, rfl⟩ := htarget.of_get
        refine ⟨us ++ dot :: name :: equals :: vs, by simp [hts, h₂, hvs], ?_⟩
        exact .set hobject hdot hname hequals hvalue
      | _ =>
        apply (report _ _).bind
        intro _ s₄ _
        exact .pure fun _ h => h.elim

end Reads

end Parser

end LoxLang
