import LoxLang.Proofs.Scope.Standing

/-!
The spots of a program: its mentions of variables, each with the scopes around it, by what they are made for
and by the names that are declared in them in front of the mention. A scope never binds other names than
its body declares. When the body of a function runs, the scopes around the function may have gained names
that are declared behind it; in a program in time none of these names is mentioned in the function.
-/

namespace LoxLang

open Scope (enter declare)
open Lexical (receiverScope superclassScope parameterScope)

/-! ### What scopes are made for -/

/-- What a scope is made for. -/
inductive Opening where
  | globals
  | block (body : List Stmt)
  /-- The parameters and the body of a function. -/
  | function (declaration : FunctionDecl)
  /-- The receiver of a method. -/
  | receiver
  /-- The superclass that a clause names. -/
  | superclass (clause : Reference)

namespace Opening

def isFunction : Opening → Bool
  | function _ => true
  | _ => false

/-- The scope can bind the name. -/
def Allows : Opening → String → Prop
  | globals, _ => True
  | block body, x => x ∈ body.filterMap Stmt.declared?
  | function d, x => x ∈ d.parameters.map Ident.name ∨ x ∈ d.body.filterMap Stmt.declared?
  | receiver, x => x = thisName
  | superclass _, x => x = superName

end Opening

/-! ### Spots -/

/-- The declaration of a class, without the scopes around it. -/
structure ClassDecl where
  name : Ident
  superclass : Option Reference
  methods : List FunctionDecl

/-- A spot in a program. -/
inductive Spot where
  /-- A mention of a variable. It stands in a nest of scopes, innermost first: what they are made for, and
  the names that are declared in them in front of the mention. -/
  | mention (reference : Reference) (nest : List Opening) (scopes : List Scope)
  /-- The declaration of a class. -/
  | classDecl (declaration : ClassDecl)

mutual

def Expr.spots (nest : List Opening) (scopes : List Scope) : Expr → List Spot
  | .constant _ => []
  | .grouping inner => inner.spots nest scopes
  | .unary _ _ operand => operand.spots nest scopes
  | .binary left _ _ right => left.spots nest scopes ++ right.spots nest scopes
  | .logical left _ right => left.spots nest scopes ++ right.spots nest scopes
  | .read target => [.mention target nest scopes]
  | .assign target value => value.spots nest scopes ++ [.mention target nest scopes]
  | .call callee _ arguments => callee.spots nest scopes ++ Expr.allSpots nest scopes arguments
  | .get object _ => object.spots nest scopes
  | .set object _ value => object.spots nest scopes ++ value.spots nest scopes
  | .this id position => [.mention (.this id position) nest scopes]
  | .super id position _ => [.mention (.super id position) nest scopes]

def Expr.allSpots (nest : List Opening) (scopes : List Scope) : List Expr → List Spot
  | [] => []
  | e :: rest => e.spots nest scopes ++ Expr.allSpots nest scopes rest

end

mutual

def Stmt.spots (nest : List Opening) (scopes : List Scope) : Stmt → List Spot
  | .expression e => e.spots nest scopes
  | .print e => e.spots nest scopes
  | .var _ none => []
  | .var name (some e) => e.spots nest (enter name.name .declared scopes)
  | .block body => Stmt.allSpots (.block body :: nest) ([] :: scopes) body
  | .ifThen condition thenBranch => condition.spots nest scopes ++ thenBranch.spots nest scopes
  | .ifElse condition thenBranch elseBranch =>
    condition.spots nest scopes ++ (thenBranch.spots nest scopes ++ elseBranch.spots nest scopes)
  | .loop condition body none => condition.spots nest scopes ++ body.spots nest scopes
  | .loop condition body (some increment) =>
    condition.spots nest scopes ++ (body.spots nest scopes ++ increment.spots nest scopes)
  | .breakLoop _ => []
  | .continueLoop _ => []
  | .function d => d.spots nest (declare d.name.name scopes)
  | .returnValue _ none => []
  | .returnValue _ (some e) => e.spots nest scopes
  | .classDecl name none methods =>
    .classDecl ⟨name, none, methods⟩ :: FunctionDecl.allSpots nest (declare name.name scopes) methods
  | .classDecl name (some superclass) methods =>
    .classDecl ⟨name, some superclass, methods⟩ ::
      .mention superclass nest (enter name.name .declared scopes) ::
        FunctionDecl.allSpots (.superclass superclass :: nest)
          (superclassScope :: declare name.name scopes) methods

/-- Statements in order, each under the scopes behind the ones before it. -/
def Stmt.allSpots (nest : List Opening) (scopes : List Scope) : List Stmt → List Spot
  | [] => []
  | s :: rest => s.spots nest scopes ++ Stmt.allSpots nest (Scope.after s scopes) rest

def FunctionDecl.spots (nest : List Opening) (scopes : List Scope) : FunctionDecl → List Spot
  | ⟨id, name, parameters, body⟩ =>
    Stmt.allSpots (.function ⟨id, name, parameters, body⟩ :: nest)
      (parameterScope parameters :: scopes) body

/-- The methods of a class. -/
def FunctionDecl.allSpots (nest : List Opening) (scopes : List Scope) : List FunctionDecl → List Spot
  | [] => []
  | m :: rest =>
    m.spots (.receiver :: nest) (receiverScope :: scopes) ++ FunctionDecl.allSpots nest scopes rest

end

/-! ### Spots and nodes -/

/-- The node that a variable is mentioned at. -/
def Spot.node? : Spot → Option NodeId
  | mention reference _ _ => some reference.id
  | classDecl _ => none

mutual

theorem Expr.spots_nodes : ∀ (e : Expr) {nest : List Opening} {scopes : List Scope},
    ∀ p ∈ e.spots nest scopes, ∀ id ∈ p.node?, id ∈ e.nodes
  | .constant _, _, _ => by simp [Expr.spots]
  | .grouping inner, _, _ => Expr.spots_nodes inner
  | .unary _ _ operand, _, _ => Expr.spots_nodes operand
  | .binary left _ _ right, _, _ => by
    simp only [Expr.spots, Expr.nodes, List.mem_append]
    exact fun p hp id hid => hp.imp (Expr.spots_nodes left p · id hid) (Expr.spots_nodes right p · id hid)
  | .logical left _ right, _, _ => by
    simp only [Expr.spots, Expr.nodes, List.mem_append]
    exact fun p hp id hid => hp.imp (Expr.spots_nodes left p · id hid) (Expr.spots_nodes right p · id hid)
  | .read target, _, _ => by simp [Expr.spots, Expr.nodes, Spot.node?]
  | .assign target value, _, _ => by
    simp only [Expr.spots, Expr.nodes, List.mem_append, List.mem_singleton]
    rintro p (hp | rfl) id hid
    · exact .inl (Expr.spots_nodes value p hp id hid)
    · exact .inr (Option.some.inj hid).symm
  | .call callee _ arguments, _, _ => by
    simp only [Expr.spots, Expr.nodes, List.mem_append]
    exact fun p hp id hid => hp.imp (Expr.spots_nodes callee p · id hid) (Expr.allSpots_nodes arguments p · id hid)
  | .get object _, _, _ => Expr.spots_nodes object
  | .set object _ value, _, _ => by
    simp only [Expr.spots, Expr.nodes, List.mem_append]
    exact fun p hp id hid => hp.symm.imp (Expr.spots_nodes value p · id hid) (Expr.spots_nodes object p · id hid)
  | .this id position, _, _ => by simp [Expr.spots, Expr.nodes, Spot.node?, Reference.this]
  | .super id position _, _, _ => by simp [Expr.spots, Expr.nodes, Spot.node?, Reference.super]

theorem Expr.allSpots_nodes : ∀ (es : List Expr) {nest : List Opening} {scopes : List Scope},
    ∀ p ∈ Expr.allSpots nest scopes es, ∀ id ∈ p.node?, id ∈ Expr.allNodes es
  | [], _, _ => by simp [Expr.allSpots]
  | e :: rest, _, _ => by
    simp only [Expr.allSpots, Expr.allNodes, List.mem_append]
    exact fun p hp id hid => hp.imp (Expr.spots_nodes e p · id hid) (Expr.allSpots_nodes rest p · id hid)

end

mutual

theorem Stmt.spots_nodes : ∀ (s : Stmt) {nest : List Opening} {scopes : List Scope},
    ∀ p ∈ s.spots nest scopes, ∀ id ∈ p.node?, id ∈ s.nodes
  | .expression e, _, _ => Expr.spots_nodes e
  | .print e, _, _ => Expr.spots_nodes e
  | .var _ none, _, _ => by simp [Stmt.spots]
  | .var _ (some e), _, _ => Expr.spots_nodes e
  | .block body, _, _ => Stmt.allSpots_nodes body
  | .ifThen condition thenBranch, _, _ => by
    simp only [Stmt.spots, Stmt.nodes, List.mem_append]
    exact fun p hp id hid => hp.imp (Expr.spots_nodes condition p · id hid) (Stmt.spots_nodes thenBranch p · id hid)
  | .ifElse condition thenBranch elseBranch, _, _ => by
    simp only [Stmt.spots, Stmt.nodes, List.mem_append]
    exact fun p hp id hid => hp.imp (Expr.spots_nodes condition p · id hid) fun hp =>
      hp.imp (Stmt.spots_nodes thenBranch p · id hid) (Stmt.spots_nodes elseBranch p · id hid)
  | .loop condition body none, _, _ => by
    simp only [Stmt.spots, Stmt.nodes, List.mem_append]
    exact fun p hp id hid => hp.imp (Expr.spots_nodes condition p · id hid) (Stmt.spots_nodes body p · id hid)
  | .loop condition body (some increment), _, _ => by
    simp only [Stmt.spots, Stmt.nodes, List.mem_append]
    exact fun p hp id hid => hp.imp (Expr.spots_nodes condition p · id hid) fun hp =>
      hp.imp (Stmt.spots_nodes body p · id hid) (Expr.spots_nodes increment p · id hid)
  | .breakLoop _, _, _ => by simp [Stmt.spots]
  | .continueLoop _, _, _ => by simp [Stmt.spots]
  | .function d, _, _ => FunctionDecl.spots_nodes d
  | .returnValue _ none, _, _ => by simp [Stmt.spots]
  | .returnValue _ (some e), _, _ => Expr.spots_nodes e
  | .classDecl _ none methods, _, _ => by
    simp only [Stmt.spots, Stmt.nodes, List.mem_cons]
    rintro p (rfl | hp) id hid
    · cases hid
    · exact FunctionDecl.allSpots_nodes methods p hp id hid
  | .classDecl _ (some superclass) methods, _, _ => by
    simp only [Stmt.spots, Stmt.nodes, List.mem_cons]
    rintro p (rfl | rfl | hp) id hid
    · cases hid
    · exact .inl (Option.some.inj hid).symm
    · exact .inr (FunctionDecl.allSpots_nodes methods p hp id hid)

theorem Stmt.allSpots_nodes : ∀ (body : List Stmt) {nest : List Opening} {scopes : List Scope},
    ∀ p ∈ Stmt.allSpots nest scopes body, ∀ id ∈ p.node?, id ∈ Stmt.allNodes body
  | [], _, _ => by simp [Stmt.allSpots]
  | s :: rest, _, _ => by
    simp only [Stmt.allSpots, Stmt.allNodes, List.mem_append]
    exact fun p hp id hid => hp.imp (Stmt.spots_nodes s p · id hid) (Stmt.allSpots_nodes rest p · id hid)

theorem FunctionDecl.spots_nodes : ∀ (d : FunctionDecl) {nest : List Opening} {scopes : List Scope},
    ∀ p ∈ d.spots nest scopes, ∀ id ∈ p.node?, id ∈ d.nodes
  | ⟨_, _, _, body⟩, _, _ => fun p hp id hid =>
    List.mem_cons_of_mem _ (Stmt.allSpots_nodes body p hp id hid)

theorem FunctionDecl.allSpots_nodes : ∀ (methods : List FunctionDecl) {nest : List Opening}
    {scopes : List Scope},
    ∀ p ∈ FunctionDecl.allSpots nest scopes methods, ∀ id ∈ p.node?, id ∈ FunctionDecl.allNodes methods
  | [], _, _ => by simp [FunctionDecl.allSpots]
  | m :: rest, _, _ => by
    simp only [FunctionDecl.allSpots, FunctionDecl.allNodes, List.mem_append]
    exact fun p hp id hid => hp.imp (FunctionDecl.spots_nodes m p · id hid) (FunctionDecl.allSpots_nodes rest p · id hid)

end

/-! ### Programs in time -/

mutual

/-- The names of the variables that an expression mentions. -/
def Expr.mentions : Expr → List String
  | .constant _ => []
  | .grouping inner => inner.mentions
  | .unary _ _ operand => operand.mentions
  | .binary left _ _ right => left.mentions ++ right.mentions
  | .logical left _ right => left.mentions ++ right.mentions
  | .read target => [target.ident.name]
  | .assign target value => value.mentions ++ [target.ident.name]
  | .call callee _ arguments => callee.mentions ++ Expr.allMentions arguments
  | .get object _ => object.mentions
  | .set object _ value => object.mentions ++ value.mentions
  | .this _ _ => []
  | .super _ _ _ => []

def Expr.allMentions : List Expr → List String
  | [] => []
  | e :: rest => e.mentions ++ Expr.allMentions rest

end

mutual

def Stmt.mentions : Stmt → List String
  | .expression e => e.mentions
  | .print e => e.mentions
  | .var _ none => []
  | .var _ (some e) => e.mentions
  | .block body => Stmt.allMentions body
  | .ifThen condition thenBranch => condition.mentions ++ thenBranch.mentions
  | .ifElse condition thenBranch elseBranch =>
    condition.mentions ++ (thenBranch.mentions ++ elseBranch.mentions)
  | .loop condition body none => condition.mentions ++ body.mentions
  | .loop condition body (some increment) =>
    condition.mentions ++ (body.mentions ++ increment.mentions)
  | .breakLoop _ => []
  | .continueLoop _ => []
  | .function d => d.mentions
  | .returnValue _ none => []
  | .returnValue _ (some e) => e.mentions
  | .classDecl _ none methods => FunctionDecl.allMentions methods
  | .classDecl _ (some superclass) methods => superclass.ident.name :: FunctionDecl.allMentions methods

def Stmt.allMentions : List Stmt → List String
  | [] => []
  | s :: rest => s.mentions ++ Stmt.allMentions rest

/-- The names of the variables that the body of a function mentions. -/
def FunctionDecl.mentions : FunctionDecl → List String
  | ⟨_, _, _, body⟩ => Stmt.allMentions body

def FunctionDecl.allMentions : List FunctionDecl → List String
  | [] => []
  | m :: rest => m.mentions ++ FunctionDecl.allMentions rest

end

mutual

/-- The functions and methods in a statement, at any depth. -/
def Stmt.functions : Stmt → List FunctionDecl
  | .block body => Stmt.allFunctions body
  | .ifThen _ thenBranch => thenBranch.functions
  | .ifElse _ thenBranch elseBranch => thenBranch.functions ++ elseBranch.functions
  | .loop _ body _ => body.functions
  | .function d => d.functions
  | .classDecl _ _ methods => FunctionDecl.allFunctions methods
  | _ => []

def Stmt.allFunctions : List Stmt → List FunctionDecl
  | [] => []
  | s :: rest => s.functions ++ Stmt.allFunctions rest

/-- A function and those in its body. -/
def FunctionDecl.functions : FunctionDecl → List FunctionDecl
  | ⟨id, name, parameters, body⟩ => ⟨id, name, parameters, body⟩ :: Stmt.allFunctions body

def FunctionDecl.allFunctions : List FunctionDecl → List FunctionDecl
  | [] => []
  | m :: rest => m.functions ++ FunctionDecl.allFunctions rest

end

/-- No statement of a scope declares a name that a function in front of it mentions, however deep in the
scope that function is. -/
def ScopeInTime (body : List Stmt) : Prop :=
  body.Pairwise fun s t => ∀ x ∈ t.declared?, ∀ f ∈ s.functions, x ∉ f.mentions

mutual

/-- The scopes in the statement are in time. -/
def Stmt.InTime : Stmt → Prop
  | .block body => ScopeInTime body ∧ Stmt.AllInTime body
  | .ifThen _ thenBranch => thenBranch.InTime
  | .ifElse _ thenBranch elseBranch => thenBranch.InTime ∧ elseBranch.InTime
  | .loop _ body _ => body.InTime
  | .function d => d.InTime
  | .classDecl _ _ methods => FunctionDecl.AllInTime methods
  | _ => True

/-- The scopes in the statements are in time. The scope of the statements themselves is another matter. -/
def Stmt.AllInTime : List Stmt → Prop
  | [] => True
  | s :: rest => s.InTime ∧ Stmt.AllInTime rest

def FunctionDecl.InTime : FunctionDecl → Prop
  | ⟨_, _, _, body⟩ => ScopeInTime body ∧ Stmt.AllInTime body

def FunctionDecl.AllInTime : List FunctionDecl → Prop
  | [] => True
  | m :: rest => m.InTime ∧ FunctionDecl.AllInTime rest

end

instance (body : List Stmt) : Decidable (ScopeInTime body) :=
  inferInstanceAs (Decidable (List.Pairwise _ body))

mutual

def Stmt.decideInTime : (s : Stmt) → Decidable s.InTime
  | .block body =>
    have := Stmt.decideAllInTime body
    inferInstanceAs (Decidable (ScopeInTime body ∧ Stmt.AllInTime body))
  | .ifThen _ thenBranch => thenBranch.decideInTime
  | .ifElse _ thenBranch elseBranch =>
    have := thenBranch.decideInTime
    have := elseBranch.decideInTime
    inferInstanceAs (Decidable (thenBranch.InTime ∧ elseBranch.InTime))
  | .loop _ body _ => body.decideInTime
  | .function d => d.decideInTime
  | .classDecl _ _ methods => FunctionDecl.decideAllInTime methods
  | .expression _ | .print _ | .var _ _ | .breakLoop _ | .continueLoop _ | .returnValue _ _ =>
    .isTrue trivial

def Stmt.decideAllInTime : (body : List Stmt) → Decidable (Stmt.AllInTime body)
  | [] => .isTrue trivial
  | s :: rest =>
    have := s.decideInTime
    have := Stmt.decideAllInTime rest
    inferInstanceAs (Decidable (s.InTime ∧ Stmt.AllInTime rest))

def FunctionDecl.decideInTime : (d : FunctionDecl) → Decidable d.InTime
  | ⟨_, _, _, body⟩ =>
    have := Stmt.decideAllInTime body
    inferInstanceAs (Decidable (ScopeInTime body ∧ Stmt.AllInTime body))

def FunctionDecl.decideAllInTime : (methods : List FunctionDecl) → Decidable (FunctionDecl.AllInTime methods)
  | [] => .isTrue trivial
  | m :: rest =>
    have := m.decideInTime
    have := FunctionDecl.decideAllInTime rest
    inferInstanceAs (Decidable (m.InTime ∧ FunctionDecl.AllInTime rest))

end

instance (body : List Stmt) : Decidable (Stmt.AllInTime body) := Stmt.decideAllInTime body

/-! ### What is declared later -/

/-- The scopes outside the innermost function bind the name only if it is declared in them in front of the
mention. -/
def Clear (x : String) : List Opening → List Scope → Prop
  | [], _ => True
  | o :: nest, scopes =>
    if o.isFunction then
      List.Forall₂ (fun (o : Opening) (scope : Scope) => o.Allows x → (scope.lookup x).isSome) nest
        scopes.tail
    else Clear x nest scopes.tail

/-- The names that the scopes can bind are declared in them already, or among those that are declared
later. -/
def Ahead : List Opening → List Scope → List (List String) → Prop
  | [], [], [] => True
  | o :: nest, scope :: scopes, names :: later =>
    (∀ x, o.Allows x → (scope.lookup x).isSome ∨ x ∈ names) ∧ Ahead nest scopes later
  | _, _, _ => False

/-- The scopes outside the innermost function do not declare the name later. -/
def Avoids (x : String) : List Opening → List (List String) → Prop
  | [], _ => True
  | o :: nest, later =>
    if o.isFunction then ∀ names ∈ later.tail, x ∉ names else Avoids x nest later.tail

section

variable {x : String} {o : Opening} {nest : List Opening} {scope : Scope} {scopes scopes' : List Scope}
  {names : List String} {later : List (List String)}

theorem clear_congr (h : scopes'.tail = scopes.tail) : Clear x nest scopes' ↔ Clear x nest scopes := by
  cases nest with
  | nil => exact Iff.rfl
  | cons o nest => rw [Clear, Clear, h]

theorem Ahead.forall₂ (h : Ahead nest scopes later) (hx : ∀ names ∈ later, x ∉ names) :
    List.Forall₂ (fun (o : Opening) (scope : Scope) => o.Allows x → (scope.lookup x).isSome) nest
      scopes := by
  induction nest generalizing scopes later with
  | nil =>
    cases scopes with
    | nil => exact .nil
    | cons => exact h.elim
  | cons o nest ih =>
    match scopes, later, h with
    | scope :: scopes, names :: later, h =>
      obtain ⟨hnames, hlater⟩ := List.forall_mem_cons.mp hx
      exact .cons (fun hallows => (h.1 x hallows).resolve_right hnames) (ih h.2 hlater)

theorem Ahead.clear (h : Ahead nest scopes later) (hx : Avoids x nest later) : Clear x nest scopes := by
  induction nest generalizing scopes later with
  | nil => trivial
  | cons o nest ih =>
    match scopes, later, h with
    | scope :: scopes, names :: later, h =>
      unfold Clear
      unfold Avoids at hx
      split
      · next hfunction =>
        rw [if_pos hfunction] at hx
        exact h.2.forall₂ hx
      · next hother =>
        rw [if_neg hother] at hx
        exact ih h.2 hx

theorem Ahead.enter {name : String} {status : Scope.Status} (h : Ahead nest scopes later) :
    Ahead nest (enter name status scopes) later := by
  match nest, scopes, later, h with
  | [], [], [], _ => trivial
  | o :: nest, scope :: scopes, names :: later, h =>
    refine ⟨fun x hx => (h.1 x hx).imp_left fun hscope => ?_, h.2⟩
    by_cases hname : x = name
    · simp [hname]
    · simpa [List.lookup_cons, beq_false_of_ne hname] using hscope

/-- Behind a statement its name is declared. -/
theorem Ahead.after {s : Stmt} {rest : List Stmt}
    (h : Ahead (o :: nest) scopes ((s :: rest).filterMap Stmt.declared? :: later)) :
    Ahead (o :: nest) (Scope.after s scopes) (rest.filterMap Stmt.declared? :: later) := by
  match scopes, h with
  | scope :: scopes, h =>
    unfold Scope.after
    cases hs : s.declared? with
    | none =>
      rw [List.filterMap_cons_none hs] at h
      exact h
    | some name =>
      rw [List.filterMap_cons_some hs] at h
      refine ⟨fun x hx => ?_, h.2⟩
      by_cases hname : x = name
      · simp [hname]
      · have hscope := h.1 x hx
        simpa [List.lookup_cons, beq_false_of_ne hname, hname] using hscope

theorem Ahead.behind (h : Ahead nest scopes later) (s : Stmt) : Ahead nest (Scope.after s scopes) later := by
  unfold Scope.after
  split
  · exact h.enter.enter
  · exact h

/-- The scope of a block, which has declared nothing yet. -/
theorem Ahead.block {body : List Stmt} (h : Ahead nest scopes later) :
    Ahead (.block body :: nest) ([] :: scopes) (body.filterMap Stmt.declared? :: later) :=
  ⟨fun _ hx => .inr hx, h⟩

theorem Ahead.receiver (h : Ahead nest scopes later) :
    Ahead (.receiver :: nest) (receiverScope :: scopes) ([] :: later) := by
  refine ⟨?_, h⟩
  rintro x rfl
  simp [receiverScope]

theorem Ahead.superclass (clause : Reference) (h : Ahead nest scopes later) :
    Ahead (.superclass clause :: nest) (superclassScope :: scopes) ([] :: later) := by
  refine ⟨?_, h⟩
  rintro x rfl
  simp [superclassScope]

theorem Ahead.function (d : FunctionDecl) (h : Ahead nest scopes later) :
    Ahead (.function d :: nest) (parameterScope d.parameters :: scopes)
      (d.body.filterMap Stmt.declared? :: later) := by
  refine ⟨?_, h⟩
  rintro x (hx | hx)
  · exact .inl (by rw [Display.parameterScope_lookup, if_pos hx]; rfl)
  · exact .inr hx

end

/-! ### Spots of programs in time -/

/-- The scopes outside the function around the mention bind its name only if they have declared it. -/
def Spot.Clear : Spot → Prop
  | mention reference nest scopes =>
    Plain reference.ident.name → LoxLang.Clear reference.ident.name nest scopes
  | classDecl _ => True

section

variable {nest : List Opening} {scopes : List Scope} {later : List (List String)}

mutual

theorem Expr.spots_clear : ∀ (e : Expr), (∀ x ∈ e.mentions, LoxLang.Clear x nest scopes) →
    ∀ p ∈ e.spots nest scopes, p.Clear
  | .constant _, _ => by simp [Expr.spots]
  | .grouping inner, h => Expr.spots_clear inner h
  | .unary _ _ operand, h => Expr.spots_clear operand h
  | .binary left _ _ right, h => fun p hp => by
    rcases List.mem_append.mp hp with hp | hp
    · exact Expr.spots_clear left (fun x hx => h x (List.mem_append_left _ hx)) p hp
    · exact Expr.spots_clear right (fun x hx => h x (List.mem_append_right _ hx)) p hp
  | .logical left _ right, h => fun p hp => by
    rcases List.mem_append.mp hp with hp | hp
    · exact Expr.spots_clear left (fun x hx => h x (List.mem_append_left _ hx)) p hp
    · exact Expr.spots_clear right (fun x hx => h x (List.mem_append_right _ hx)) p hp
  | .read target, h => fun p hp => by
    obtain rfl := List.mem_singleton.mp hp
    exact fun _ => h _ (List.mem_singleton.mpr rfl)
  | .assign target value, h => fun p hp => by
    rcases List.mem_append.mp hp with hp | hp
    · exact Expr.spots_clear value (fun x hx => h x (List.mem_append_left _ hx)) p hp
    · obtain rfl := List.mem_singleton.mp hp
      exact fun _ => h _ (List.mem_append_right _ (List.mem_singleton.mpr rfl))
  | .call callee _ arguments, h => fun p hp => by
    rcases List.mem_append.mp hp with hp | hp
    · exact Expr.spots_clear callee (fun x hx => h x (List.mem_append_left _ hx)) p hp
    · exact Expr.allSpots_clear arguments (fun x hx => h x (List.mem_append_right _ hx)) p hp
  | .get object _, h => Expr.spots_clear object h
  | .set object _ value, h => fun p hp => by
    rcases List.mem_append.mp hp with hp | hp
    · exact Expr.spots_clear object (fun x hx => h x (List.mem_append_left _ hx)) p hp
    · exact Expr.spots_clear value (fun x hx => h x (List.mem_append_right _ hx)) p hp
  | .this _ _, _ => fun p hp => by
    obtain rfl := List.mem_singleton.mp hp
    exact fun hplain => absurd rfl hplain.1
  | .super _ _ _, _ => fun p hp => by
    obtain rfl := List.mem_singleton.mp hp
    exact fun hplain => absurd rfl hplain.2

theorem Expr.allSpots_clear : ∀ (es : List Expr), (∀ x ∈ Expr.allMentions es, LoxLang.Clear x nest scopes) →
    ∀ p ∈ Expr.allSpots nest scopes es, p.Clear
  | [], _ => by simp [Expr.allSpots]
  | e :: rest, h => fun p hp => by
    rcases List.mem_append.mp hp with hp | hp
    · exact Expr.spots_clear e (fun x hx => h x (List.mem_append_left _ hx)) p hp
    · exact Expr.allSpots_clear rest (fun x hx => h x (List.mem_append_right _ hx)) p hp

end

/-- What is known of a part of a program in time: the names that the scopes around it declare later are not
mentioned in the functions in the part, and outside the innermost function not in the part at all. -/
structure Timely (nest : List Opening) (later : List (List String)) (functions : List FunctionDecl)
    (mentions : List String) : Prop where
  functions : ∀ f ∈ functions, ∀ x ∈ f.mentions, ∀ names ∈ later, x ∉ names
  mentions : ∀ x ∈ mentions, Avoids x nest later

theorem Timely.sub {functions functions' : List FunctionDecl} {mentions mentions' : List String}
    (h : Timely nest later functions mentions) (hfunctions : functions' ⊆ functions)
    (hmentions : mentions' ⊆ mentions) : Timely nest later functions' mentions' :=
  ⟨fun f hf => h.functions f (hfunctions hf), fun x hx => h.mentions x (hmentions hx)⟩

theorem Timely.clear {functions : List FunctionDecl} {mentions : List String} {scopes' : List Scope}
    (h : Timely nest later functions mentions) (hahead : Ahead nest scopes later)
    (htail : scopes'.tail = scopes.tail) : ∀ x ∈ mentions, LoxLang.Clear x nest scopes' :=
  fun x hx => (clear_congr htail).mpr (hahead.clear (h.mentions x hx))

/-- A new scope, which is not known to declare anything later. -/
theorem Timely.push {functions : List FunctionDecl} {mentions : List String} {o : Opening}
    (h : Timely nest later functions mentions) (ho : o.isFunction = false) :
    Timely (o :: nest) ([] :: later) functions mentions := by
  constructor
  · intro f hf x hx names hnames
    rcases List.mem_cons.mp hnames with rfl | hnames
    · simp
    · exact h.functions f hf x hx names hnames
  · intro x hx
    unfold Avoids
    rw [ho]
    exact h.mentions x hx

/-- The scope of a function's body. -/
theorem Timely.body {id : NodeId} {name : Ident} {parameters : List Ident} {body : List Stmt}
    {mentions : List String}
    (h : Timely nest later (FunctionDecl.functions ⟨id, name, parameters, body⟩) mentions) :
    Timely (.function ⟨id, name, parameters, body⟩ :: nest) ([] :: later) (Stmt.allFunctions body)
      (Stmt.allMentions body) := by
  constructor
  · intro f hf x hx names hnames
    rcases List.mem_cons.mp hnames with rfl | hnames
    · simp
    · exact h.functions f (List.mem_cons_of_mem _ hf) x hx names hnames
  · exact fun x hx => h.functions _ List.mem_cons_self x hx

/-- A statement of a scope, and the names that are declared behind it. -/
theorem Timely.head {o : Opening} {s : Stmt} {rest : List Stmt}
    (h : Timely (o :: nest) ([] :: later) (Stmt.allFunctions (s :: rest)) (Stmt.allMentions (s :: rest)))
    (htime : ScopeInTime (s :: rest)) :
    Timely (o :: nest) (rest.filterMap Stmt.declared? :: later) s.functions s.mentions := by
  constructor
  · intro f hf x hx names hnames
    rcases List.mem_cons.mp hnames with rfl | hnames
    · intro hlater
      obtain ⟨t, ht, hdeclared⟩ := List.mem_filterMap.mp hlater
      exact List.rel_of_pairwise_cons htime ht x hdeclared f hf hx
    · exact h.functions f (List.mem_append_left _ hf) x hx names (List.mem_cons_of_mem _ hnames)
  · exact fun x hx => h.mentions x (List.mem_append_left _ hx)

theorem Timely.tail {o : Opening} {s : Stmt} {rest : List Stmt}
    (h : Timely (o :: nest) ([] :: later) (Stmt.allFunctions (s :: rest)) (Stmt.allMentions (s :: rest))) :
    Timely (o :: nest) ([] :: later) (Stmt.allFunctions rest) (Stmt.allMentions rest) :=
  h.sub (List.subset_append_right _ _) (List.subset_append_right _ _)

mutual

theorem Stmt.spots_clear : ∀ (s : Stmt) {nest : List Opening} {scopes : List Scope}
    {later : List (List String)}, s.InTime → Ahead nest (Scope.after s scopes) later →
      Timely nest later s.functions s.mentions → ∀ p ∈ s.spots nest scopes, p.Clear
  | .expression e, _, _, _, _, hahead, h => Expr.spots_clear e (h.clear hahead rfl)
  | .print e, _, _, _, _, hahead, h => Expr.spots_clear e (h.clear hahead rfl)
  | .var _ none, _, _, _, _, _, _ => by simp [Stmt.spots]
  | .var name (some e), _, _, _, _, hahead, h =>
    Expr.spots_clear e (h.clear hahead (by simp [Scope.tail_enter, Scope.tail_after]))
  | .block body, _, _, _, htime, hahead, h =>
    Stmt.allSpots_clear body htime.2 htime.1 (.block hahead) (h.push rfl)
  | .ifThen condition thenBranch, _, _, _, htime, hahead, h => fun p hp => by
    rcases List.mem_append.mp hp with hp | hp
    · exact Expr.spots_clear condition
        (fun x hx => h.clear hahead rfl x (List.mem_append_left _ hx)) p hp
    · exact Stmt.spots_clear thenBranch htime (hahead.behind thenBranch)
        (h.sub (List.Subset.refl _) (List.subset_append_right _ _)) p hp
  | .ifElse condition thenBranch elseBranch, _, _, _, htime, hahead, h => fun p hp => by
    rcases List.mem_append.mp hp with hp | hp
    · exact Expr.spots_clear condition
        (fun x hx => h.clear hahead rfl x (List.mem_append_left _ hx)) p hp
    · have h := h.sub (List.Subset.refl _) (List.subset_append_right _ _)
      rcases List.mem_append.mp hp with hp | hp
      · exact Stmt.spots_clear thenBranch htime.1 (hahead.behind thenBranch)
          (h.sub (List.subset_append_left _ _) (List.subset_append_left _ _)) p hp
      · exact Stmt.spots_clear elseBranch htime.2 (hahead.behind elseBranch)
          (h.sub (List.subset_append_right _ _) (List.subset_append_right _ _)) p hp
  | .loop condition body none, _, _, _, htime, hahead, h => fun p hp => by
    rcases List.mem_append.mp hp with hp | hp
    · exact Expr.spots_clear condition
        (fun x hx => h.clear hahead rfl x (List.mem_append_left _ hx)) p hp
    · exact Stmt.spots_clear body htime (hahead.behind body)
        (h.sub (List.Subset.refl _) (List.subset_append_right _ _)) p hp
  | .loop condition body (some increment), _, _, _, htime, hahead, h => fun p hp => by
    rcases List.mem_append.mp hp with hp | hp
    · exact Expr.spots_clear condition
        (fun x hx => h.clear hahead rfl x (List.mem_append_left _ hx)) p hp
    · have h := h.sub (List.Subset.refl _) (List.subset_append_right _ _)
      rcases List.mem_append.mp hp with hp | hp
      · exact Stmt.spots_clear body htime (hahead.behind body)
          (h.sub (List.Subset.refl _) (List.subset_append_left _ _)) p hp
      · exact Expr.spots_clear increment
          (fun x hx => h.clear hahead rfl x (List.mem_append_right _ hx)) p hp
  | .breakLoop _, _, _, _, _, _, _ => by simp [Stmt.spots]
  | .continueLoop _, _, _, _, _, _, _ => by simp [Stmt.spots]
  | .function d, _, _, _, htime, hahead, h => FunctionDecl.spots_clear d htime hahead h
  | .returnValue _ none, _, _, _, _, _, _ => by simp [Stmt.spots]
  | .returnValue _ (some e), _, _, _, _, hahead, h => Expr.spots_clear e (h.clear hahead rfl)
  | .classDecl name none methods, _, _, _, htime, hahead, h => fun p hp => by
    rcases List.mem_cons.mp hp with rfl | hp
    · trivial
    · exact FunctionDecl.allSpots_clear methods htime hahead h p hp
  | .classDecl name (some superclass) methods, _, _, _, htime, hahead, h => fun p hp => by
    rcases List.mem_cons.mp hp with rfl | hp
    · trivial
    rcases List.mem_cons.mp hp with rfl | hp
    · intro _
      exact h.clear hahead (by simp [Scope.tail_enter, Scope.tail_after]) _ List.mem_cons_self
    · have hmethods := (h.sub (List.Subset.refl _) (List.subset_cons_self _ _)).push
        (o := .superclass superclass) rfl
      exact FunctionDecl.allSpots_clear methods htime (hahead.superclass superclass) hmethods p hp

theorem Stmt.allSpots_clear : ∀ (body : List Stmt) {o : Opening} {nest : List Opening}
    {scopes : List Scope} {later : List (List String)}, Stmt.AllInTime body → ScopeInTime body →
      Ahead (o :: nest) scopes (body.filterMap Stmt.declared? :: later) →
        Timely (o :: nest) ([] :: later) (Stmt.allFunctions body) (Stmt.allMentions body) →
          ∀ p ∈ Stmt.allSpots (o :: nest) scopes body, p.Clear
  | [], _, _, _, _, _, _, _, _ => by simp [Stmt.allSpots]
  | s :: rest, _, _, _, _, hall, htime, hahead, h => fun p hp => by
    rcases List.mem_append.mp hp with hp | hp
    · exact Stmt.spots_clear s hall.1 hahead.after (h.head htime) p hp
    · exact Stmt.allSpots_clear rest hall.2 htime.tail hahead.after h.tail p hp

theorem FunctionDecl.spots_clear : ∀ (d : FunctionDecl) {nest : List Opening} {scopes : List Scope}
    {later : List (List String)} {mentions : List String}, d.InTime → Ahead nest scopes later →
      Timely nest later d.functions mentions → ∀ p ∈ d.spots nest scopes, p.Clear
  | ⟨_, _, _, body⟩, _, _, _, _, htime, hahead, h =>
    Stmt.allSpots_clear body htime.2 htime.1 (hahead.function ⟨_, _, _, body⟩) h.body

theorem FunctionDecl.allSpots_clear : ∀ (methods : List FunctionDecl) {nest : List Opening}
    {scopes : List Scope} {later : List (List String)} {mentions : List String},
      FunctionDecl.AllInTime methods → Ahead nest scopes later →
        Timely nest later (FunctionDecl.allFunctions methods) mentions →
          ∀ p ∈ FunctionDecl.allSpots nest scopes methods, p.Clear
  | [], _, _, _, _, _, _, _ => by simp [FunctionDecl.allSpots]
  | m :: rest, _, _, _, _, htime, hahead, h => fun p hp => by
    rcases List.mem_append.mp hp with hp | hp
    · have hm := (h.sub (List.subset_append_left _ _) (List.Subset.refl _)).push (o := .receiver) rfl
      exact FunctionDecl.spots_clear m htime.1 hahead.receiver hm p hp
    · exact FunctionDecl.allSpots_clear rest htime.2 hahead
        (h.sub (List.subset_append_right _ _) (List.Subset.refl _)) p hp

end

end

/-- In a program in time, no mention of a variable can find another scope later than the one it was resolved
to. -/
theorem allSpots_clear {program : List Stmt} (h : Stmt.AllInTime program) :
    ∀ p ∈ Stmt.allSpots [] [] program, p.Clear := by
  induction program with
  | nil => simp [Stmt.allSpots]
  | cons s rest ih =>
    intro p hp
    rcases List.mem_append.mp hp with hp | hp
    · have htimely : Timely [] [] s.functions s.mentions := ⟨by simp, fun _ _ => trivial⟩
      have hahead : Ahead [] (Scope.after s []) [] := by
        rw [Scope.after_global s]
        trivial
      exact Stmt.spots_clear s h.1 hahead htimely p hp
    · exact ih h.2 p (Scope.after_global s ▸ hp)

end LoxLang
