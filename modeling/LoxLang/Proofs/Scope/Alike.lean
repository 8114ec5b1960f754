import LoxLang.Proofs.Outcome
import LoxLang.Scope.HopTable
import LoxLang.Proofs.Syntax.Alike

/-!
Resolving code that is alike. The resolver goes the same way through both programs, finds the same distances
for mentions that correspond, and stops at the same fault if it stops. It does not matter which mentions it
had met before; that is why programs can be resolved one after the other.
-/

namespace LoxLang

/-- The same fault at places that correspond. -/
structure Diagnostic.Alike (S : Skew) (d e : Diagnostic) : Prop where
  position : S.place d.position e.position
  fault : d.fault = e.fault
  file : d.file = e.file

structure Lookup.Alike (S : Skew) (l k : Lookup) : Prop where
  reference : l.reference.Alike S k.reference
  hops : l.hops = k.hops

namespace Resolver

/-- States with the same scopes. In the second one the mentions `before` had been met before all that have
been met in the first. -/
structure State.Alike (S : Skew) (before : List Lookup) (s t : State) : Prop where
  scopes : s.scopes = t.scopes
  lookups : ∃ ls, t.lookups.toList = before ++ ls ∧
    List.Forall₂ (Lookup.Alike S) s.lookups.toList ls

/-- Two walks that do the same. -/
def Alike (S : Skew) (before : List Lookup) (x y : Resolver Unit) : Prop :=
  ∀ s t, s.Alike S before t → Agree x y s t (fun _ s' _ t' => s'.Alike S before t')
    (fun e s' e' t' => e.Alike S e' ∧ s'.Alike S before t')

variable {S : Skew} {before : List Lookup}

namespace Alike

theorem pure : Alike S before (Pure.pure ()) (Pure.pure ()) :=
  fun _ _ hs => Agree.pure hs

theorem bind {x y : Resolver Unit} {f g : Unit → Resolver Unit} (hxy : Alike S before x y)
    (hfg : Alike S before (f ()) (g ())) : Alike S before (x >>= f) (y >>= g) :=
  fun s t hs => (hxy s t hs).bind fun _ s' _ t' hs' => hfg s' t' hs'

theorem failAt {p q : Position} (hpq : S.place p q) (fault : ScopeFault) :
    Alike S before (Resolver.failAt p fault) (Resolver.failAt q fault) :=
  fun _ _ hs => Agree.throw ⟨⟨hpq, rfl, rfl⟩, hs⟩

theorem modify {f g : State → State}
    (hfg : ∀ s t : State, s.Alike S before t → (f s).Alike S before (g t)) :
    Alike S before (modify f) (modify g) :=
  fun s t hs => hfg s t hs

/-- A rule that both walks keep or break. -/
theorem guarded {c : Prop} [Decidable c] {p q : Position} (hpq : S.place p q) (fault : ScopeFault)
    {f g : Unit → Resolver Unit} (hfg : Alike S before (f ()) (g ())) :
    Alike S before (if c then Resolver.failAt p fault >>= f else f ())
      (if c then Resolver.failAt q fault >>= g else g ()) := by
  split
  · exact (failAt hpq fault).bind hfg
  · exact hfg

end Alike

/-! ### Steps -/

theorem note_alike {r r' : Reference} (hr : r.Alike S r') : Alike S before (note r) (note r') := by
  refine .modify fun s t hs => ⟨hs.scopes, ?_⟩
  obtain ⟨ls, ht, hls⟩ := hs.lookups
  rw [hs.scopes, hr.ident.name]
  refine ⟨ls ++ [⟨r', hopsTo? r'.ident.name t.scopes⟩], ?_, ?_⟩
  · rw [Array.toList_push, ht, List.append_assoc]
  · rw [Array.toList_push]
    exact List.rel_append hls (.cons ⟨hr, rfl⟩ .nil)

theorem bind_alike (name : String) (status : Scope.Status) :
    Alike S before (bind name status) (bind name status) := by
  refine .modify fun s t hs => ?_
  rw [hs.scopes]
  cases ht : t.scopes with
  | nil => exact hs
  | cons scope outer => exact ⟨rfl, hs.lookups⟩

theorem declare_alike {x y : Ident} (hxy : x.Alike S y) : Alike S before (declare x) (declare y) := by
  intro s t hs
  refine Agree.get_bind ?_
  rw [hs.scopes, hxy.name]
  cases t.scopes with
  | nil => exact Alike.pure s t hs
  | cons scope outer =>
    dsimp only
    split
    · exact Alike.failAt hxy.position _ s t hs
    · exact bind_alike _ _ s t hs

theorem define_alike {x y : Ident} (hxy : x.Alike S y) : Alike S before (define x) (define y) := by
  unfold define
  rw [hxy.name]
  exact bind_alike _ _

theorem pushScope_alike : Alike S before pushScope pushScope :=
  .modify fun _ _ hs => ⟨congrArg ([] :: ·) hs.scopes, hs.lookups⟩

theorem popScope_alike : Alike S before popScope popScope :=
  .modify fun _ _ hs => ⟨congrArg List.tail hs.scopes, hs.lookups⟩

theorem read_alike {r r' : Reference} (hr : r.Alike S r') : Alike S before (read r) (read r') := by
  intro s t hs
  refine Agree.get_bind ?_
  rw [hs.scopes, hr.ident.name]
  exact Alike.guarded hr.ident.position _ (note_alike hr) s t hs

theorem parameters_alike {ps qs : List Ident} (hps : List.Forall₂ (Ident.Alike S) ps qs) :
    Alike S before (parameters ps) (parameters qs) := by
  induction hps with
  | nil => exact .pure
  | cons hpq _ ih => exact (declare_alike hpq).bind ((define_alike hpq).bind ih)

/-! ### Expressions and statements -/

mutual

theorem expression_alike (c : Context) : ∀ {a b : Expr}, a.Alike S b →
    Alike S before (expression c a) (expression c b)
  | .constant _, _, .constant _ => .pure
  | .grouping inner, _, .grouping (b := b) h => expression_alike c (a := inner) (b := b) h
  | .unary _ _ operand, _, .unary (b := b) _ _ h => expression_alike c (a := operand) (b := b) h
  | .binary .., _, .binary _ h _ h' => (expression_alike c h).bind (expression_alike c h')
  | .logical .., _, .logical _ h h' => (expression_alike c h).bind (expression_alike c h')
  | .read _, _, .read hr => read_alike hr
  | .assign .., _, .assign hr h => (expression_alike c h).bind (note_alike hr)
  | .call .., _, .call h _ hs => (expression_alike c h).bind (expressions_alike c hs)
  | .get object _, _, .get (b := b) h _ => expression_alike c (a := object) (b := b) h
  | .set .., _, .set h _ h' => (expression_alike c h').bind (expression_alike c h)
  | .this .., _, .this hi hp => by
    unfold expression
    split
    · exact .failAt hp _
    · exact note_alike ⟨hi, rfl, hp⟩
  | .super .., _, .super hi hp _ => by
    unfold expression
    cases c.cls with
    | outside => exact .failAt hp _
    | root => exact .failAt hp _
    | derived => exact note_alike ⟨hi, rfl, hp⟩

theorem expressions_alike (c : Context) : ∀ {as bs : List Expr},
    List.Forall₂ (Expr.Alike S) as bs → Alike S before (expressions c as) (expressions c bs)
  | [], _, .nil => .pure
  | _ :: _, _, .cons h hs => (expression_alike c h).bind (expressions_alike c hs)

end

mutual

theorem statement_alike (c : Context) : ∀ {a b : Stmt}, a.Alike S b →
    Alike S before (statement c a) (statement c b)
  | .expression _, _, .expression h => expression_alike c h
  | .print _, _, .print h => expression_alike c h
  | .var _ none, _, .var hx .none => (declare_alike hx).bind (define_alike hx)
  | .var _ (some _), _, .var hx (.some h) =>
    (declare_alike hx).bind ((expression_alike c h).bind (define_alike hx))
  | .block _, _, .block hs => pushScope_alike.bind ((statements_alike c hs).bind popScope_alike)
  | .ifThen .., _, .ifThen hc h => (expression_alike c hc).bind (statement_alike c h)
  | .ifElse .., _, .ifElse hc h h' =>
    (expression_alike c hc).bind ((statement_alike c h).bind (statement_alike c h'))
  | .loop _ _ none, _, .loop hc h .none => (expression_alike c hc).bind (statement_alike _ h)
  | .loop _ _ (some _), _, .loop hc h (.some h') =>
    (expression_alike c hc).bind ((statement_alike _ h).bind (expression_alike c h'))
  | .breakLoop _, _, .breakLoop hp => by
    unfold statement
    split
    · exact .pure
    · exact .failAt hp _
  | .continueLoop _, _, .continueLoop hp => by
    unfold statement
    split
    · exact .pure
    · exact .failAt hp _
  | .function _, _, .function h =>
    (declare_alike h.name).bind ((define_alike h.name).bind (function_alike c .function h))
  | .returnValue _ none, _, .returnValue hp .none => by
    unfold statement
    exact .guarded hp _ .pure
  | .returnValue _ (some _), _, .returnValue hp (.some h) => by
    unfold statement
    exact .guarded hp _ (.guarded hp _ (expression_alike c h))
  | .classDecl _ none _, _, .classDecl hx .none hs =>
    (declare_alike hx).bind ((define_alike hx).bind (pushScope_alike.bind
      ((bind_alike _ _).bind ((functions_alike _ hs).bind popScope_alike))))
  | .classDecl x (some r) _, _, .classDecl (y := y) hx (.some (b := r') hr) hs => by
    unfold statement
    rw [hx.name, hr.ident.name]
    refine (declare_alike hx).bind ((define_alike hx).bind ?_)
    refine .guarded hr.ident.position _ ((read_alike hr).bind ?_)
    refine pushScope_alike.bind ((bind_alike _ _).bind (pushScope_alike.bind ?_))
    exact (bind_alike _ _).bind ((functions_alike _ hs).bind (popScope_alike.bind popScope_alike))
termination_by structural a => a

theorem function_alike (c : Context) (kind : FunctionContext) : ∀ {f g : FunctionDecl},
    f.Alike S g → Alike S before (function c kind f) (function c kind g)
  | ⟨_, _, _, _⟩, _, .mk _ _ hps hs =>
    pushScope_alike.bind ((parameters_alike hps).bind
      ((statements_alike _ hs).bind popScope_alike))
termination_by structural f => f

theorem statements_alike (c : Context) : ∀ {as bs : List Stmt},
    List.Forall₂ (Stmt.Alike S) as bs → Alike S before (statements c as) (statements c bs)
  | [], _, .nil => .pure
  | _ :: _, _, .cons h hs => (statement_alike c h).bind (statements_alike c hs)
termination_by structural as => as

theorem functions_alike (c : Context) : ∀ {fs gs : List FunctionDecl},
    List.Forall₂ (FunctionDecl.Alike S) fs gs → Alike S before (functions c fs) (functions c gs)
  | [], _, .nil => .pure
  | f :: _, g :: _, .cons h hs => by
    have hkind : methodKind f.name = methodKind g.name := by rw [methodKind, methodKind, h.name.name]
    unfold functions
    rw [hkind]
    exact (function_alike c _ h).bind (functions_alike c hs)
termination_by structural fs => fs

end

end Resolver

/-! ### Programs -/

variable {S : Skew}

/-- Programs that are alike have the same mentions, and the same fault if they have one. -/
theorem resolve_alike {as bs : List Stmt} (has : List.Forall₂ (Stmt.Alike S) as bs) :
    List.Forall₂ (Lookup.Alike S) (resolve as).lookups.toList (resolve bs).lookups.toList ∧
      Option.Rel (Diagnostic.Alike S) (resolve as).fault (resolve bs).fault := by
  have hstart : Resolver.State.Alike S [] ⟨[], #[]⟩ ⟨[], #[]⟩ := ⟨rfl, [], rfl, .nil⟩
  have h := Resolver.statements_alike Resolver.topLevel has _ _ hstart
  have hlookups : ∀ {s t : Resolver.State}, s.Alike S [] t →
      List.Forall₂ (Lookup.Alike S) s.lookups.toList t.lookups.toList := by
    rintro s t ⟨_, ls, ht, hls⟩
    rw [ht]
    exact hls
  have hruns := h.runs
  unfold resolve
  dsimp only [EStateM.run] at hruns ⊢
  obtain ⟨_, s, _, t, hs, ht, h⟩ | ⟨e, s, e', t, hs, ht, he, h⟩ := hruns
  · rw [hs, ht]
    exact ⟨hlookups h, .none⟩
  · rw [hs, ht]
    exact ⟨hlookups h, .some he⟩

namespace HopTable

/-- Tables agree on nodes that correspond, also after the distances of the same mentions have been recorded
in both. -/
theorem recordAll_alike (hS : S.Faithful) {t u : HopTable}
    (htu : ∀ {i j : NodeId}, S.node i j → t.find? i = u.find? j) {ls ks : Array Lookup}
    (hls : List.Forall₂ (Lookup.Alike S) ls.toList ks.toList) :
    ∀ {i j : NodeId}, S.node i j → (t.recordAll ls).find? i = (u.recordAll ks).find? j := by
  rw [recordAll_eq, recordAll_eq]
  generalize ls.toList = ls at hls
  generalize ks.toList = ks at hls
  induction hls generalizing t u with
  | nil => exact htu
  | @cons l k _ _ hlk _ ih =>
    refine ih fun {i j} hij => ?_
    unfold recordLookup
    rw [hlk.hops]
    split
    · rw [find?_record, find?_record, htu hij]
      have hsame := hS hlk.reference.id hij
      by_cases hi : @Eq Nat l.reference.id i
      · rw [if_pos hi, if_pos (hsame.mp hi)]
      · rw [if_neg hi, if_neg fun hj => hi (hsame.mpr hj)]
    · exact htu hij

end HopTable

end LoxLang
