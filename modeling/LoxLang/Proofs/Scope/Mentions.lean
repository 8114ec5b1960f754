import LoxLang.Proofs.Outcome
import LoxLang.Proofs.Syntax.WellFormed
import LoxLang.Scope.Resolution

/-!
The mentions of a program and how the resolver meets them. A mention is a node that refers to a variable, or
to the receiver or the superclass of a method. The resolver comes by each mention of each form of statement
once, in the order of `references`; a broken rule ends the walk between two of them.
-/

namespace LoxLang

/-! ### Mentions -/

mutual

/-- The mentions in an expression, in the order of the walk. -/
def Expr.references : Expr → List Reference
  | .constant _ => []
  | .grouping inner => inner.references
  | .unary _ _ operand => operand.references
  | .binary left _ _ right => left.references ++ right.references
  | .logical left _ right => left.references ++ right.references
  | .read target => [target]
  | .assign target value => value.references ++ [target]
  | .call callee _ arguments => callee.references ++ Expr.allReferences arguments
  | .get object _ => object.references
  | .set object _ value => value.references ++ object.references
  | .this id position => [.this id position]
  | .super id position _ => [.super id position]

def Expr.allReferences : List Expr → List Reference
  | [] => []
  | e :: rest => e.references ++ Expr.allReferences rest

end

mutual

/-- The mentions in a statement, in the order of the walk. -/
def Stmt.references : Stmt → List Reference
  | .expression e => e.references
  | .print e => e.references
  | .var _ none => []
  | .var _ (some e) => e.references
  | .block body => Stmt.allReferences body
  | .ifThen condition thenBranch => condition.references ++ thenBranch.references
  | .ifElse condition thenBranch elseBranch =>
    condition.references ++ (thenBranch.references ++ elseBranch.references)
  | .loop condition body none => condition.references ++ body.references
  | .loop condition body (some increment) =>
    condition.references ++ (body.references ++ increment.references)
  | .breakLoop _ => []
  | .continueLoop _ => []
  | .function declaration => declaration.references
  | .returnValue _ none => []
  | .returnValue _ (some e) => e.references
  | .classDecl _ none methods => FunctionDecl.allReferences methods
  | .classDecl _ (some superclass) methods => superclass :: FunctionDecl.allReferences methods

def Stmt.allReferences : List Stmt → List Reference
  | [] => []
  | s :: rest => s.references ++ Stmt.allReferences rest

def FunctionDecl.references : FunctionDecl → List Reference
  | ⟨_, _, _, body⟩ => Stmt.allReferences body

def FunctionDecl.allReferences : List FunctionDecl → List Reference
  | [] => []
  | m :: rest => m.references ++ FunctionDecl.allReferences rest

end

/-! ### The nodes of mentions -/

mutual

/-- The only nodes in an expression that have identities are its mentions. -/
theorem Expr.references_ids : ∀ e : Expr, e.references.map (·.id) = e.nodes
  | .constant _ => rfl
  | .grouping inner => inner.references_ids
  | .unary _ _ operand => operand.references_ids
  | .binary left _ _ right => by
    simp [Expr.references, Expr.nodes, left.references_ids, right.references_ids]
  | .logical left _ right => by
    simp [Expr.references, Expr.nodes, left.references_ids, right.references_ids]
  | .read _ => rfl
  | .assign _ value => by simp [Expr.references, Expr.nodes, value.references_ids]
  | .call callee _ arguments => by
    simp [Expr.references, Expr.nodes, callee.references_ids, Expr.allReferences_ids arguments]
  | .get object _ => object.references_ids
  | .set object _ value => by
    simp [Expr.references, Expr.nodes, object.references_ids, value.references_ids]
  | .this _ _ => rfl
  | .super _ _ _ => rfl

theorem Expr.allReferences_ids : ∀ es : List Expr, (Expr.allReferences es).map (·.id) = Expr.allNodes es
  | [] => rfl
  | e :: rest => by
    simp [Expr.allReferences, Expr.allNodes, e.references_ids, Expr.allReferences_ids rest]

end

mutual

/-- Besides mentions, functions have identities. -/
theorem Stmt.references_ids : ∀ s : Stmt, (s.references.map (·.id)).Sublist s.nodes
  | .expression e => by simp [Stmt.references, Stmt.nodes, e.references_ids]
  | .print e => by simp [Stmt.references, Stmt.nodes, e.references_ids]
  | .var _ none => List.Sublist.refl _
  | .var _ (some e) => by simp [Stmt.references, Stmt.nodes, e.references_ids]
  | .block body => Stmt.allReferences_ids body
  | .ifThen condition thenBranch => by
    simpa [Stmt.references, Stmt.nodes, condition.references_ids] using thenBranch.references_ids
  | .ifElse condition thenBranch elseBranch => by
    simpa [Stmt.references, Stmt.nodes, condition.references_ids] using
      thenBranch.references_ids.append elseBranch.references_ids
  | .loop condition body none => by
    simpa [Stmt.references, Stmt.nodes, condition.references_ids] using body.references_ids
  | .loop condition body (some increment) => by
    simpa [Stmt.references, Stmt.nodes, condition.references_ids, increment.references_ids] using
      body.references_ids
  | .breakLoop _ => List.Sublist.refl _
  | .continueLoop _ => List.Sublist.refl _
  | .function declaration => declaration.references_ids
  | .returnValue _ none => List.Sublist.refl _
  | .returnValue _ (some e) => by simp [Stmt.references, Stmt.nodes, e.references_ids]
  | .classDecl _ none methods => FunctionDecl.allReferences_ids methods
  | .classDecl _ (some _) methods => (FunctionDecl.allReferences_ids methods).cons_cons _

theorem Stmt.allReferences_ids : ∀ body : List Stmt,
    ((Stmt.allReferences body).map (·.id)).Sublist (Stmt.allNodes body)
  | [] => List.Sublist.refl _
  | s :: rest => by
    simpa [Stmt.allReferences, Stmt.allNodes] using s.references_ids.append (Stmt.allReferences_ids rest)

theorem FunctionDecl.references_ids : ∀ d : FunctionDecl, (d.references.map (·.id)).Sublist d.nodes
  | ⟨id, _, _, body⟩ => (Stmt.allReferences_ids body).cons id

theorem FunctionDecl.allReferences_ids : ∀ methods : List FunctionDecl,
    ((FunctionDecl.allReferences methods).map (·.id)).Sublist (FunctionDecl.allNodes methods)
  | [] => List.Sublist.refl _
  | m :: rest => by
    simpa [FunctionDecl.allReferences, FunctionDecl.allNodes] using
      m.references_ids.append (FunctionDecl.allReferences_ids rest)

end

namespace Resolver

/-! ### Walks over mentions -/

/-- The mentions that have been met so far. -/
def State.met (s : State) : List Reference :=
  s.lookups.toList.map (·.reference)

/-- The walk meets the mentions in this order, all of them or those up to the rule that ends it. -/
def Meets (x : Resolver Unit) (mentions : List Reference) : Prop :=
  ∀ s, Ends x s (fun _ s' => s'.met = s.met ++ mentions)
    fun _ s' => ∃ seen, seen <+: mentions ∧ s'.met = s.met ++ seen

namespace Meets

variable {x : Resolver Unit} {f : Unit → Resolver Unit} {mentions more : List Reference}

theorem pure : Meets (Pure.pure ()) [] :=
  fun s => Ends.pure (List.append_nil s.met).symm

theorem fail (position : Position) (fault : ScopeFault) : Meets (failAt position fault) mentions :=
  fun s => Ends.throw ⟨[], List.nil_prefix, (List.append_nil s.met).symm⟩

theorem silent {u : State → State} (h : ∀ s, (u s).lookups = s.lookups) : Meets (modify u) [] := by
  intro s
  refine Ends.of_modify ?_
  rw [State.met, h, List.append_nil, State.met]

theorem bind (hx : Meets x mentions) (hf : Meets (f ()) more) : Meets (x >>= f) (mentions ++ more) := by
  intro s
  have hx' : Ends x s (fun _ s' => s'.met = s.met ++ mentions) fun _ s' =>
      ∃ seen, seen <+: mentions ++ more ∧ s'.met = s.met ++ seen := by
    refine (hx s).imp (fun _ _ h => h) ?_
    rintro _ s' ⟨seen, hseen, hmet⟩
    exact ⟨seen, hseen.trans (List.prefix_append _ _), hmet⟩
  refine hx'.bind fun _ s' hmet => (hf s').imp (fun _ s'' hmore => ?_) ?_
  · rw [hmore, hmet, List.append_assoc]
  · rintro _ s'' ⟨seen, hseen, hmore⟩
    refine ⟨mentions ++ seen, (List.prefix_append_right_inj _).mpr hseen, ?_⟩
    rw [hmore, hmet, List.append_assoc]

/-- A step in front that meets nothing. -/
theorem after (hx : Meets x []) (hf : Meets (f ()) mentions) : Meets (x >>= f) mentions :=
  hx.bind hf

/-- A step behind that meets nothing. -/
theorem ending (hx : Meets x mentions) (hf : Meets (f ()) []) : Meets (x >>= f) mentions := by
  simpa using hx.bind hf

/-- A rule that is checked before the walk goes on. -/
theorem guarded (position : Position) (fault : ScopeFault) {p : Prop} [Decidable p]
    (hf : Meets (f ()) mentions) : Meets (if p then failAt position fault >>= f else f ()) mentions := by
  split
  case isTrue =>
    have hfail : Meets (failAt position fault) [] := fail position fault
    exact hfail.bind hf
  case isFalse => exact hf

end Meets

/-! ### Steps -/

theorem note_meets (r : Reference) : Meets (note r) [r] := by
  intro s
  refine Ends.of_modify ?_
  simp [State.met]

theorem bind_meets (name : String) (status : Scope.Status) : Meets (bind name status) [] :=
  Meets.silent fun s => by cases s.scopes <;> simp

theorem define_meets (name : Ident) : Meets (define name) [] :=
  bind_meets name.name .defined

theorem pushScope_meets : Meets pushScope [] :=
  Meets.silent fun _ => rfl

theorem popScope_meets : Meets popScope [] :=
  Meets.silent fun _ => rfl

theorem declare_meets (name : Ident) : Meets (declare name) [] := by
  intro s
  refine Ends.get_bind ?_
  cases s.scopes with
  | nil => exact Meets.pure s
  | cons scope outer =>
    dsimp only
    split
    · exact Meets.fail _ _ s
    · exact bind_meets name.name .declared s

theorem read_meets (r : Reference) : Meets (read r) [r] := by
  intro s
  refine Ends.get_bind ?_
  exact Meets.guarded _ _ (note_meets r) s

theorem parameters_meet (names : List Ident) : Meets (parameters names) [] := by
  induction names with
  | nil => exact Meets.pure
  | cons p rest ih => exact (declare_meets p).after ((define_meets p).after ih)

/-! ### Expressions -/

mutual

theorem expression_meets (c : Context) : ∀ e : Expr, Meets (expression c e) e.references
  | .constant _ => Meets.pure
  | .grouping inner => expression_meets c inner
  | .unary _ _ operand => expression_meets c operand
  | .binary left _ _ right => (expression_meets c left).bind (expression_meets c right)
  | .logical left _ right => (expression_meets c left).bind (expression_meets c right)
  | .read r => read_meets r
  | .assign r value => (expression_meets c value).bind (note_meets r)
  | .call callee _ arguments => (expression_meets c callee).bind (expressions_meet c arguments)
  | .get object _ => expression_meets c object
  | .set object _ value => (expression_meets c value).bind (expression_meets c object)
  | .this id position => by
    unfold expression
    exact Meets.guarded _ _ (note_meets (.this id position))
  | .super id position _ => by
    unfold expression
    cases c.cls with
    | outside => exact Meets.fail _ _
    | root => exact Meets.fail _ _
    | derived => exact note_meets (.super id position)

theorem expressions_meet (c : Context) : ∀ es : List Expr, Meets (expressions c es) (Expr.allReferences es)
  | [] => Meets.pure
  | e :: rest => (expression_meets c e).bind (expressions_meet c rest)

end

/-! ### Statements -/

mutual

theorem statement_meets : ∀ (c : Context) (s : Stmt), Meets (statement c s) s.references
  | c, .expression e => expression_meets c e
  | c, .print e => expression_meets c e
  | _, .var name none => (declare_meets name).after (define_meets name)
  | c, .var name (some e) =>
    (declare_meets name).after ((expression_meets c e).ending (define_meets name))
  | c, .block body => pushScope_meets.after ((statements_meet c body).ending popScope_meets)
  | c, .ifThen condition thenBranch => (expression_meets c condition).bind (statement_meets c thenBranch)
  | c, .ifElse condition thenBranch elseBranch =>
    (expression_meets c condition).bind ((statement_meets c thenBranch).bind (statement_meets c elseBranch))
  | c, .loop condition body none =>
    (expression_meets c condition).bind (statement_meets { c with inLoop := true } body)
  | c, .loop condition body (some increment) =>
    (expression_meets c condition).bind
      ((statement_meets { c with inLoop := true } body).bind (expression_meets c increment))
  | c, .breakLoop position => by
    unfold statement
    split
    · exact Meets.pure
    · exact Meets.fail _ _
  | c, .continueLoop position => by
    unfold statement
    split
    · exact Meets.pure
    · exact Meets.fail _ _
  | c, .function d =>
    (declare_meets d.name).after ((define_meets d.name).after (function_meets c .function d))
  | c, .returnValue position none => by
    unfold statement
    exact Meets.guarded _ _ Meets.pure
  | c, .returnValue position (some e) => by
    unfold statement
    exact Meets.guarded _ _ (Meets.guarded _ _ (expression_meets c e))
  | c, .classDecl name none methods =>
    (declare_meets name).after <| (define_meets name).after <| pushScope_meets.after <|
      (bind_meets thisName .defined).after <|
        (functions_meet { c with cls := .root } methods).ending popScope_meets
  | c, .classDecl name (some superclass) methods =>
    (declare_meets name).after <| (define_meets name).after <| Meets.guarded _ _ <|
      (read_meets superclass).bind <| pushScope_meets.after <| (bind_meets superName .defined).after <|
        pushScope_meets.after <| (bind_meets thisName .defined).after <|
          (functions_meet { c with cls := .derived } methods).ending <|
            popScope_meets.after popScope_meets

theorem function_meets : ∀ (c : Context) (kind : FunctionContext) (d : FunctionDecl),
    Meets (function c kind d) d.references
  | c, kind, ⟨_, _, names, body⟩ =>
    pushScope_meets.after <| (parameters_meet names).after <|
      (statements_meet { c with function := kind, inLoop := false } body).ending popScope_meets

theorem statements_meet : ∀ (c : Context) (body : List Stmt),
    Meets (statements c body) (Stmt.allReferences body)
  | _, [] => Meets.pure
  | c, s :: rest => (statement_meets c s).bind (statements_meet c rest)

theorem functions_meet : ∀ (c : Context) (methods : List FunctionDecl),
    Meets (functions c methods) (FunctionDecl.allReferences methods)
  | _, [] => Meets.pure
  | c, m :: rest => (function_meets c (methodKind m.name) m).bind (functions_meet c rest)

end

end Resolver

/-- The resolver looks up the mentions of a program in order and each of them once, up to the broken rule; if
no rule is broken, it looks up them all. -/
theorem resolve_references (program : List Stmt) :
    (resolve program).lookups.toList.map (·.reference) <+: Stmt.allReferences program ∧
      ((resolve program).fault = none →
        (resolve program).lookups.toList.map (·.reference) = Stmt.allReferences program) := by
  have h := Resolver.statements_meet Resolver.topLevel program ⟨[], #[]⟩
  unfold Ends EStateM.run at h
  unfold resolve
  cases hrun : Resolver.statements Resolver.topLevel program ⟨[], #[]⟩ with
  | ok _ s =>
    rw [hrun] at h
    have hmet : s.lookups.toList.map (·.reference) = Stmt.allReferences program := h
    exact ⟨hmet ▸ List.prefix_rfl, fun _ => hmet⟩
  | error fault s =>
    rw [hrun] at h
    obtain ⟨seen, hseen, hmet⟩ := h
    have hmet' : s.lookups.toList.map (·.reference) = seen := hmet
    refine ⟨hmet' ▸ hseen, fun hnone => ?_⟩
    cases hnone

end LoxLang
