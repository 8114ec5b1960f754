import LoxLang.Proofs.Renaming.Occurrences
import LoxLang.Proofs.Renaming.Code
import LoxLang.Proofs.Scope.Addressed

/-!
Resolving a program in which a variable is renamed. The resolver goes the same way through both programs. A
scope on its stack that belongs to the variable has it under the new name, and a mention of it, spelled by the
new name as well, is found there, because no other scope has that name.
-/

namespace LoxLang

/-! ### Scopes -/

theorem Renaming.name_ne {R : Renaming} {b c : Bool} {x y : String} (hx : x ≠ R.new) (hy : y ≠ R.new)
    (hxy : x ≠ y) : R.name b x ≠ R.name c y := by
  unfold Renaming.name
  split <;> split
  case isTrue.isTrue h h' => exact fun _ => hxy (h.2.trans h'.2.symm)
  case isTrue.isFalse => exact hy.symm
  case isFalse.isTrue => exact hx
  case isFalse.isFalse => exact hxy

/-- The entries of a scope, marked or not. None of them has the new name. -/
def Scope.Renamed (R : Renaming) (marked : Bool) (a b : Scope) : Prop :=
  List.Forall₂ (fun e e' => e'.1 = R.name marked e.1 ∧ e'.2 = e.2 ∧ e.1 ≠ R.new) a b

namespace Scope.Renamed

variable {R : Renaming} {marked : Bool} {a b : Scope} {x : String}

theorem lookup (h : Scope.Renamed R marked a b) (hx : x ≠ R.new) :
    b.lookup (R.name marked x) = a.lookup x := by
  induction h with
  | nil => rfl
  | @cons e e' _ _ he _ ih =>
    obtain ⟨k, status⟩ := e
    obtain ⟨k', status'⟩ := e'
    obtain ⟨hkey, hstatus, hk⟩ := he
    dsimp only at hkey hstatus hk
    subst hkey hstatus
    have hsame : (R.name marked x == R.name marked k) = (x == k) := by
      rw [Bool.eq_iff_iff, beq_iff_eq, beq_iff_eq]
      exact Renaming.name_inj (fun _ => hx) fun _ => hk
    rw [List.lookup_cons, List.lookup_cons, hsame, ih]

/-- A name that the scope does not have is not there however it is spelled. -/
theorem lookup_none (h : Scope.Renamed R marked a b) (hx : x ≠ R.new) (hnone : a.lookup x = none)
    (other : Bool) : b.lookup (R.name other x) = none := by
  induction h with
  | nil => rfl
  | @cons e e' _ _ he _ ih =>
    obtain ⟨k, status⟩ := e
    obtain ⟨k', status'⟩ := e'
    obtain ⟨hkey, hstatus, hk⟩ := he
    dsimp only at hkey hstatus hk
    subst hkey hstatus
    rw [List.lookup_cons] at hnone ⊢
    cases hxk : x == k with
    | true => rw [hxk] at hnone; cases hnone
    | false =>
      rw [hxk] at hnone
      rw [beq_false_of_ne (Renaming.name_ne hx hk (ne_of_beq_false hxk))]
      exact ih hnone

end Scope.Renamed

/-- The scopes around a place, each marked or not. -/
inductive Scopes.Renamed (R : Renaming) : Marks → List Scope → List Scope → Prop where
  | nil : Scopes.Renamed R [] [] []
  | cons {marked : Bool} {μ : Marks} {a b : Scope} {as bs : List Scope} :
    Scope.Renamed R marked a b → Scopes.Renamed R μ as bs →
      Scopes.Renamed R (marked :: μ) (a :: as) (b :: bs)

theorem Scopes.Renamed.tail {R : Renaming} {b : Bool} {μ : Marks} {as bs : List Scope}
    (h : Scopes.Renamed R (b :: μ) as bs) : Scopes.Renamed R μ as.tail bs.tail := by
  cases h with
  | cons _ houter => exact houter

/-- Lookups of one node, with one outcome. -/
structure Lookup.Agrees (l k : Lookup) : Prop where
  id : l.reference.id = k.reference.id
  hops : l.hops = k.hops

namespace Resolver

variable {R : Renaming} {μ ν ξ : Marks} {as bs : List Scope} {x : String}

theorem hopsTo?_renamed (h : Scopes.Renamed R μ as bs) (hx : x ≠ R.new) :
    hopsTo? (R.name (μ.reach (hopsTo? x as)) x) bs = hopsTo? x as := by
  induction h with
  | nil => rfl
  | @cons marked μ a b as bs hab _ ih =>
    cases ha : a.lookup x with
    | some status =>
      have hhere : hopsTo? x (a :: as) = some 0 := by simp [hopsTo?, ha]
      have hfound : b.lookup (R.name marked x) = some status := (hab.lookup hx).trans ha
      rw [hhere]
      simp [hopsTo?, Marks.reach, hfound]
    | none =>
      have hbehind : hopsTo? x (a :: as) = (hopsTo? x as).map (· + 1) := by simp [hopsTo?, ha]
      have hreach : Marks.reach (marked :: μ) ((hopsTo? x as).map (· + 1)) = μ.reach (hopsTo? x as) := by
        cases hopsTo? x as <;> rfl
      rw [hbehind, hreach, hopsTo?, hab.lookup_none hx ha, ih]
      rfl

/-- What the innermost scope says of a mention. -/
theorem head_renamed (h : Scopes.Renamed R μ as bs) (hx : x ≠ R.new) :
    bs.head?.bind (·.lookup (R.name (μ.reach (hopsTo? x as)) x)) = as.head?.bind (·.lookup x) := by
  cases h with
  | nil => rfl
  | @cons marked μ a b as bs hab _ =>
    cases ha : a.lookup x with
    | some status =>
      have hhere : hopsTo? x (a :: as) = some 0 := by simp [hopsTo?, ha]
      rw [hhere]
      exact (hab.lookup hx).trans ha |>.trans (by simp [ha])
    | none =>
      rw [List.head?_cons, List.head?_cons, Option.bind_some, Option.bind_some, ha]
      exact hab.lookup_none hx ha _

/-! ### Walks -/

/-- States in the two programs. -/
structure State.Renamed (R : Renaming) (μ : Marks) (s t : State) : Prop where
  scopes : Scopes.Renamed R μ s.scopes t.scopes
  lookups : List.Forall₂ Lookup.Agrees s.lookups.toList t.lookups.toList

/-- No other distance is known for the node of a lookup than its own. -/
def Known (R : Renaming) (ls : List Lookup) : Prop :=
  ∀ l ∈ ls, ∀ hops, R.distance l.reference.id hops → hops = l.hops

/-- If the first walk gets through, and notes what is known, the second one gets through as well. -/
structure Follows (R : Renaming) (μ ν : Marks) (x y : Resolver Unit) : Prop where
  grows : ∀ s s', x.run s = .ok () s' → s.lookups.toList ⊆ s'.lookups.toList
  follows : ∀ s t s', s.Renamed R μ t → x.run s = .ok () s' → Known R s'.lookups.toList →
    ∃ t', y.run t = .ok () t' ∧ s'.Renamed R ν t'

namespace Follows

theorem pure : Follows R μ μ (Pure.pure ()) (Pure.pure ()) := by
  refine ⟨?_, ?_⟩
  · rintro s _ ⟨⟩
    exact fun _ hl => hl
  · rintro s t _ hst ⟨⟩ _
    exact ⟨t, rfl, hst⟩

theorem bind {x y : Resolver Unit} {f g : Unit → Resolver Unit} (hxy : Follows R μ ν x y)
    (hfg : Follows R ν ξ (f ()) (g ())) : Follows R μ ξ (x >>= f) (y >>= g) := by
  have hsplit : ∀ s s', (x >>= f).run s = .ok () s' →
      ∃ s₁, x.run s = .ok () s₁ ∧ (f ()).run s₁ = .ok () s' := by
    intro s s' hrun
    rw [EStateM.run_bind] at hrun
    cases hx : x.run s with
    | ok _ s₁ =>
      rw [hx] at hrun
      exact ⟨s₁, rfl, hrun⟩
    | error e s₁ =>
      rw [hx] at hrun
      cases hrun
  refine ⟨fun s s' hrun => ?_, fun s t s' hst hrun hknown => ?_⟩
  · obtain ⟨s₁, hfirst, hsecond⟩ := hsplit s s' hrun
    exact List.Subset.trans (hxy.grows s s₁ hfirst) (hfg.grows s₁ s' hsecond)
  · obtain ⟨s₁, hfirst, hsecond⟩ := hsplit s s' hrun
    have hearly : Known R s₁.lookups.toList := fun l hl => hknown l (hfg.grows s₁ s' hsecond hl)
    obtain ⟨t₁, hfirst', hst₁⟩ := hxy.follows s t s₁ hst hfirst hearly
    obtain ⟨t', hsecond', hst'⟩ := hfg.follows s₁ t₁ s' hst₁ hsecond hknown
    refine ⟨t', ?_, hst'⟩
    rw [EStateM.run_bind, hfirst']
    exact hsecond'

theorem failAt {p q : Position} {fault fault' : ScopeFault} :
    Follows R μ ν (Resolver.failAt p fault) (Resolver.failAt q fault') :=
  ⟨nofun, nofun⟩

theorem modify {f g : State → State} (hgrows : ∀ s, s.lookups.toList ⊆ (f s).lookups.toList)
    (hfg : ∀ s t : State, s.Renamed R μ t → Known R (f s).lookups.toList → (f s).Renamed R ν (g t)) :
    Follows R μ ν (modify f) (modify g) := by
  refine ⟨?_, ?_⟩
  · rintro s _ ⟨⟩
    exact hgrows s
  · rintro s t _ hst ⟨⟩ hknown
    exact ⟨g t, rfl, hfg s t hst hknown⟩

/-- A rule that the second walk keeps if the first one does. -/
theorem guarded {a b : Prop} [Decidable a] [Decidable b] (hab : ¬a → ¬b) {p q : Position}
    {fault fault' : ScopeFault} {f g : Unit → Resolver Unit} (hfg : ¬a → Follows R μ ν (f ()) (g ())) :
    Follows R μ ν (if a then Resolver.failAt p fault >>= f else f ())
      (if b then Resolver.failAt q fault' >>= g else g ()) := by
  by_cases ha : a
  · rw [if_pos ha]
    exact ⟨nofun, nofun⟩
  · rw [if_neg ha, if_neg (hab ha)]
    exact hfg ha

end Follows

/-! ### Steps -/

theorem Walks.grows {x : Resolver Unit} {s s' : State} {after : List Scope} {nodes : List NodeId}
    {good : Notes → Prop} (h : Walks x s after nodes good) (hrun : x.run s = .ok () s') :
    s.lookups.toList ⊆ s'.lookups.toList := by
  unfold Walks Ends at h
  rw [hrun] at h
  obtain ⟨_, ls, _, hlookups, _⟩ := h
  rw [hlookups]
  exact List.subset_append_left _ _

section Steps

variable {b : Bool} {y : Ident} {r r' : Reference}

/-- What is known of a mention that is noted is its distance. -/
theorem Known.noted {s : State} {hops : Option Nat}
    (h : Known R (s.lookups.push ⟨r, hopsTo? r.ident.name s.scopes⟩).toList) (hr : R.distance r.id hops) :
    hops = hopsTo? r.ident.name s.scopes := by
  rw [Array.toList_push] at h
  exact h _ List.mem_concat_self hops hr

theorem note_follows (hr : r.Renamed R μ r') (hx : r.ident.name ≠ R.new) :
    Follows R μ μ (note r) (note r') := by
  refine .modify (fun s => ?_) fun s t hst hknown => ⟨hst.scopes, ?_⟩
  · rw [Array.toList_push]
    exact List.subset_append_left _ _
  · obtain ⟨hops, hdistance, hident⟩ := hr.ident
    obtain rfl := hknown.noted hdistance
    rw [Array.toList_push, Array.toList_push, hident.name]
    refine List.rel_append hst.lookups (.cons ⟨hr.id, ?_⟩ .nil)
    exact (hopsTo?_renamed hst.scopes hx).symm

theorem bind_follows {x : String} (status : Scope.Status) (hx : x ≠ R.new) :
    Follows R μ μ (Resolver.bind x status) (Resolver.bind (R.name μ.own x) status) := by
  refine .modify (fun s => ?_) fun s t hst _ => ?_
  · split <;> exact List.Subset.refl _
  · obtain ⟨hscopes, hlookups⟩ := hst
    obtain ⟨as, ls⟩ := s
    obtain ⟨bs, ks⟩ := t
    dsimp only at hscopes hlookups ⊢
    cases hscopes with
    | nil => exact ⟨.nil, hlookups⟩
    | cons hab houter => exact ⟨.cons (.cons ⟨rfl, rfl, hx⟩ hab) houter, hlookups⟩

theorem declare_run (x : Ident) (a : Scope) (as : List Scope) (ls : Array Lookup) :
    (declare x).run ⟨a :: as, ls⟩ =
      (if (a.lookup x.name).isSome then failAt x.position (.redeclared x.name)
        else Resolver.bind x.name .declared).run ⟨a :: as, ls⟩ :=
  rfl

theorem declare_follows {x : Ident} (h : x.Renamed R μ.own y) (hx : x.name ≠ R.new) :
    Follows R μ μ (declare x) (declare y) := by
  refine ⟨fun s s' => (declare_walks x rfl).grows, ?_⟩
  intro s t s' hst hrun hknown
  have hbind : Follows R μ μ (Resolver.bind x.name .declared) _ := bind_follows .declared hx
  have hstep := hbind.follows s t s' hst
  rw [← h.name] at hstep
  obtain ⟨as, ls⟩ := s
  obtain ⟨bs, ks⟩ := t
  obtain ⟨hscopes, hlookups⟩ := hst
  dsimp only at hscopes hlookups
  cases hscopes with
  | nil =>
    obtain rfl : ⟨[], ls⟩ = s' := by injection hrun
    exact ⟨_, rfl, .nil, hlookups⟩
  | @cons marked _ a b _ _ hab _ =>
    have hsame : b.lookup y.name = a.lookup x.name := by
      rw [h.name]
      exact hab.lookup hx
    rw [declare_run] at hrun ⊢
    rw [hsame]
    split at hrun
    case isTrue => cases hrun
    case isFalse hfree =>
      rw [if_neg hfree]
      exact hstep hrun hknown

theorem define_follows {x : Ident} (h : x.Renamed R μ.own y) (hx : x.name ≠ R.new) :
    Follows R μ μ (define x) (define y) := by
  rw [define, define, h.name]
  exact bind_follows .defined hx

theorem pushScope_follows (b : Bool) : Follows R μ (b :: μ) pushScope pushScope :=
  .modify (fun _ => List.Subset.refl _) fun _ _ hst _ => ⟨.cons .nil hst.scopes, hst.lookups⟩

theorem popScope_follows : Follows R (b :: μ) μ popScope popScope :=
  .modify (fun _ => List.Subset.refl _) fun _ _ hst _ => ⟨hst.scopes.tail, hst.lookups⟩

theorem read_follows (hr : r.Renamed R μ r') (hx : r.ident.name ≠ R.new) :
    Follows R μ μ (read r) (read r') := by
  refine ⟨fun s s' => (read_walks r rfl).grows, ?_⟩
  intro s t s' hst hrun hknown
  have hnote := (note_follows hr hx).follows s t s' hst
  rw [read, EStateM.run_bind] at hrun ⊢
  dsimp only [get, getThe, MonadStateOf.get, EStateM.run, EStateM.get] at hrun ⊢
  split at hrun
  case isTrue => cases hrun
  case isFalse hready =>
    obtain ⟨hops, hdistance, hident⟩ := hr.ident
    have hnoted : s' = _ := (EStateM.Result.ok.inj hrun).2.symm
    subst hnoted
    obtain rfl := hknown.noted hdistance
    rw [hident.name, if_neg (by rwa [head_renamed hst.scopes hx])]
    exact hnote hrun hknown

/-- The scopes of classes are not marked. -/
theorem bind_class_follows {x : String} (hx : x ≠ R.new) :
    Follows R (false :: μ) (false :: μ) (Resolver.bind x .defined) (Resolver.bind x .defined) := by
  have hbind : Follows R (false :: μ) (false :: μ) (Resolver.bind x .defined) _ := bind_follows .defined hx
  rwa [show Marks.own (false :: μ) = false from rfl, Renaming.name_false] at hbind

theorem parameters_follow {marked : Bool} {ps qs : List Ident}
    (h : List.Forall₂ (Ident.Renamed R marked) ps qs) (hfresh : ∀ p ∈ ps, p.name ≠ R.new) :
    Follows R (marked :: μ) (marked :: μ) (parameters ps) (parameters qs) := by
  induction h with
  | nil => exact .pure
  | @cons p q ps qs hp _ ih =>
    have hx : p.name ≠ R.new := hfresh p List.mem_cons_self
    have hrest := ih fun p hp => hfresh p (List.mem_cons_of_mem _ hp)
    exact (declare_follows hp hx).bind ((define_follows hp hx).bind hrest)

end Steps

/-! ### Expressions -/

/-- None of the occurrences has the new name. -/
def Fresh (R : Renaming) (qs : List Occurrence) : Prop :=
  ∀ q ∈ qs, q.ident.name ≠ R.new

namespace Fresh

variable {q : Occurrence} {qs rs : List Occurrence}

theorem left (h : Fresh R (qs ++ rs)) : Fresh R qs :=
  (List.forall_mem_append.mp h).1

theorem right (h : Fresh R (qs ++ rs)) : Fresh R rs :=
  (List.forall_mem_append.mp h).2

theorem head (h : Fresh R (q :: qs)) : q.ident.name ≠ R.new :=
  h q List.mem_cons_self

theorem tail (h : Fresh R (q :: qs)) : Fresh R qs :=
  fun q hq => h q (List.mem_cons_of_mem _ hq)

end Fresh

section Expressions

variable {nest : List (List Ident)}

theorem this_follows {i : NodeId} {p q : Position} {hops : Option Nat} (hi : R.distance i hops)
    (hp : p.SameLine q) : Follows R μ μ (note (.this i p)) (note (.this i q)) :=
  note_follows ⟨rfl, hops, hi, (Renaming.name_of_ne R.old_plain.1.symm).symm,
    fun _ => R.new_plain.1.symm, hp⟩ R.new_plain.1.symm

theorem super_follows {i : NodeId} {p q : Position} {hops : Option Nat} (hi : R.distance i hops)
    (hp : p.SameLine q) : Follows R μ μ (note (.super i p)) (note (.super i q)) :=
  note_follows ⟨rfl, hops, hi, (Renaming.name_of_ne R.old_plain.2.symm).symm,
    fun _ => R.new_plain.2.symm, hp⟩ R.new_plain.2.symm

mutual

theorem expression_follows (c : Context) : ∀ {a b : Expr}, a.Renamed R μ b →
    Fresh R (a.occurrences nest) → Follows R μ μ (expression c a) (expression c b)
  | .constant _, _, .constant _, _ => .pure
  | .grouping _, _, .grouping h, hfresh => (expression_follows c h hfresh :)
  | .unary .., _, .unary _ _ h, hfresh => (expression_follows c h hfresh :)
  | .binary .., _, .binary _ h _ h', hfresh =>
    (expression_follows c h hfresh.left).bind (expression_follows c h' hfresh.right)
  | .logical .., _, .logical _ h h', hfresh =>
    (expression_follows c h hfresh.left).bind (expression_follows c h' hfresh.right)
  | .read _, _, .read hr, hfresh => read_follows hr hfresh.head
  | .assign .., _, .assign hr h, hfresh =>
    (expression_follows c h hfresh.tail).bind (note_follows hr hfresh.head)
  | .call .., _, .call h _ hs, hfresh =>
    (expression_follows c h hfresh.left).bind (expressions_follow c hs hfresh.right)
  | .get .., _, .get h _, hfresh => (expression_follows c h hfresh.left :)
  | .set .., _, .set h _ h', hfresh =>
    (expression_follows c h' hfresh.right.tail).bind (expression_follows c h hfresh.left)
  | .this .., _, .this hi hp, _ => by
    unfold expression
    exact .guarded id fun _ => this_follows hi hp
  | .super .., _, .super hi hp _, _ => by
    unfold expression
    cases c.cls with
    | outside => exact .failAt
    | root => exact .failAt
    | derived => exact super_follows hi hp

theorem expressions_follow (c : Context) : ∀ {as bs : List Expr}, List.Forall₂ (Expr.Renamed R μ) as bs →
    Fresh R (Expr.allOccurrences nest as) → Follows R μ μ (expressions c as) (expressions c bs)
  | [], _, .nil, _ => .pure
  | _ :: _, _, .cons h hs, hfresh =>
    (expression_follows c h hfresh.left).bind (expressions_follow c hs hfresh.right)

end

end Expressions

/-! ### Statements -/

mutual

theorem statement_follows : ∀ (c : Context) {nest : List (List Ident)} {μ : Marks} {a b : Stmt},
    Stmt.Renamed R μ a b → Fresh R (a.occurrences nest) → Follows R μ μ (statement c a) (statement c b)
  | c, _, _, .expression _, _, .expression h, hfresh => expression_follows c h hfresh
  | c, _, _, .print _, _, .print h, hfresh => expression_follows c h hfresh
  | _, _, _, .var _ none, _, .var hx .none, hfresh =>
    (declare_follows hx hfresh.head).bind (define_follows hx hfresh.head)
  | c, _, _, .var _ (some _), _, .var hx (.some h), hfresh =>
    (declare_follows hx hfresh.head).bind
      ((expression_follows c h hfresh.tail).bind (define_follows hx hfresh.head))
  | c, _, _, .block _, _, .block marked hs, hfresh =>
    (pushScope_follows marked).bind ((statements_follow c hs hfresh).bind popScope_follows)
  | c, _, _, .ifThen .., _, .ifThen hc h, hfresh =>
    (expression_follows c hc hfresh.left).bind (statement_follows c h hfresh.right)
  | c, _, _, .ifElse .., _, .ifElse hc h h', hfresh =>
    (expression_follows c hc hfresh.left).bind
      ((statement_follows c h hfresh.right.left).bind (statement_follows c h' hfresh.right.right))
  | c, _, _, .loop _ _ none, _, .loop hc h .none, hfresh =>
    (expression_follows c hc hfresh.left).bind
      (statement_follows { c with inLoop := true } h hfresh.right)
  | c, _, _, .loop _ _ (some _), _, .loop hc h (.some hi), hfresh =>
    (expression_follows c hc hfresh.left).bind
      ((statement_follows { c with inLoop := true } h hfresh.right.right).bind
        (expression_follows c hi hfresh.right.left))
  | c, _, _, .breakLoop _, _, .breakLoop _, _ => by
    unfold statement
    split
    · exact .pure
    · exact .failAt
  | c, _, _, .continueLoop _, _, .continueLoop _, _ => by
    unfold statement
    split
    · exact .pure
    · exact .failAt
  | c, _, _, .function _, _, .function h hx, hfresh =>
    (declare_follows hx hfresh.head).bind
      ((define_follows hx hfresh.head).bind (function_follows c .function h hfresh.tail))
  | c, _, _, .returnValue _ none, _, .returnValue _ .none, _ => by
    unfold statement
    exact .guarded id fun _ => .pure
  | c, _, _, .returnValue _ (some _), _, .returnValue _ (.some h), hfresh => by
    unfold statement
    exact .guarded id fun _ => .guarded id fun _ => expression_follows c h hfresh
  | c, _, _, .classDecl _ none _, _, .classDecl _ hx .none hs, hfresh =>
    (declare_follows hx hfresh.head).bind <| (define_follows hx hfresh.head).bind <|
      (pushScope_follows false).bind <| (bind_class_follows R.new_plain.1.symm).bind <|
        (functions_follow { c with cls := .root } hs hfresh.tail).bind popScope_follows
  | c, _, _, .classDecl _ (some _) _, _, .classDecl hkept hx (.some hr) hs, hfresh => by
    obtain ⟨_, _, hident⟩ := hr.ident
    refine (declare_follows hx hfresh.head).bind <| (define_follows hx hfresh.head).bind <|
      .guarded (fun hne => ?_) fun _ => (read_follows hr hfresh.tail.head).bind <|
        (pushScope_follows false).bind <| (bind_class_follows R.new_plain.2.symm).bind <|
          (pushScope_follows false).bind <| (bind_class_follows R.new_plain.1.symm).bind <|
            (functions_follow { c with cls := .derived } hs hfresh.tail.tail).bind <|
              popScope_follows.bind popScope_follows
    rw [hident.name, hx.name]
    exact Renaming.name_ne hfresh.tail.head hfresh.head hne

theorem statements_follow : ∀ (c : Context) {nest : List (List Ident)} {μ : Marks} {as bs : List Stmt},
    Stmt.AllRenamed R μ as bs → Fresh R (Stmt.allOccurrences nest as) →
      Follows R μ μ (statements c as) (statements c bs)
  | _, _, _, [], _, .nil, _ => .pure
  | c, _, _, _ :: _, _, .cons h hs, hfresh =>
    (statement_follows c h hfresh.left).bind (statements_follow c hs hfresh.right)

theorem function_follows : ∀ (c : Context) (kind : FunctionContext) {nest : List (List Ident)} {μ : Marks}
    {f g : FunctionDecl}, FunctionDecl.Renamed R μ f g → Fresh R (f.occurrences nest) →
      Follows R μ μ (function c kind f) (function c kind g)
  | c, kind, _, _, ⟨_, _, ps, _⟩, _, .mk marked _ hps hs, hfresh =>
    have hnames : ∀ p ∈ ps, p.name ≠ R.new := fun _ hp => hfresh.left _ (List.mem_map_of_mem hp)
    (pushScope_follows marked).bind <| (parameters_follow hps hnames).bind <|
      (statements_follow { c with function := kind, inLoop := false } hs hfresh.right).bind
        popScope_follows

theorem functions_follow : ∀ (c : Context) {nest : List (List Ident)} {μ : Marks}
    {fs gs : List FunctionDecl}, FunctionDecl.AllRenamed R μ fs gs →
      Fresh R (FunctionDecl.allOccurrences nest fs) → Follows R μ μ (functions c fs) (functions c gs)
  | _, _, _, [], _, .nil, _ => .pure
  | c, _, _, f :: _, _, .cons h hs, hfresh => by
    have hkind : methodKind f.name = methodKind _ := congrArg (if · = _ then _ else _) h.name.name
    unfold functions
    rw [hkind]
    exact (function_follows c _ h hfresh.left.tail).bind (functions_follow c hs hfresh.right)

end

end Resolver

/-- A program that keeps the rules keeps them with another name for its variable, and its mentions are as far
from their declarations. -/
theorem resolve_follows {R : Renaming} {as bs : List Stmt} (h : Stmt.AllRenamed R [] as bs)
    (hfresh : Resolver.Fresh R (Stmt.allOccurrences [] as)) (hfault : (resolve as).fault = none)
    (hknown : Resolver.Known R (resolve as).lookups.toList) :
    (resolve bs).fault = none ∧
      List.Forall₂ Lookup.Agrees (resolve as).lookups.toList (resolve bs).lookups.toList := by
  have hfollows := (Resolver.statements_follow Resolver.topLevel h hfresh).follows ⟨[], #[]⟩ ⟨[], #[]⟩
  unfold resolve at hfault hknown ⊢
  dsimp only [EStateM.run] at hfollows
  cases hrun : Resolver.statements Resolver.topLevel as ⟨[], #[]⟩ with
  | error fault s => rw [hrun] at hfault; cases hfault
  | ok _ s =>
    rw [hrun] at hknown
    obtain ⟨t, hrun', hst⟩ := hfollows s ⟨.nil, .nil⟩ hrun hknown
    rw [hrun']
    exact ⟨rfl, hst.lookups⟩

end LoxLang
