import LoxLang.Proofs.Outcome
import LoxLang.Proofs.Scope.Lexical

/-!
What the resolver establishes about a program. A program is addressed under a stack of scopes if each of
its mentions of a variable was looked up under the scopes that enclose it there, and if it keeps the rules
of declaration which make those lookups mean something at run time: a scope takes a name once, a variable
is not read in its own initializer, and a method that mentions its receiver or its superclass finds the
scopes of its class in place.
-/

namespace LoxLang

open Resolver (hopsTo?)
open Lexical (receiverScope superclassScope parameterScope)

namespace Scope

/-- The scopes with an entry added to the innermost one. The global scope keeps no record. -/
def enter (name : String) (status : Status) : List Scope → List Scope
  | [] => []
  | scope :: outer => ((name, status) :: scope) :: outer

/-- The scopes behind the declaration of a name. -/
def declare (name : String) (scopes : List Scope) : List Scope :=
  enter name .defined (enter name .declared scopes)

/-- The scopes behind a statement. -/
def after (s : Stmt) (scopes : List Scope) : List Scope :=
  match s.declared? with
  | some name => declare name scopes
  | none => scopes

/-- The innermost scope does not have the name. -/
def Fresh (name : String) (scopes : List Scope) : Prop :=
  scopes.head?.bind (·.lookup name) = none

/-- The innermost scope is not in the middle of the initializer of the name. -/
def Ready (name : String) (scopes : List Scope) : Prop :=
  scopes.head?.bind (·.lookup name) ≠ some .declared

/-- The nearest scope that binds the receiver is that of a class, at a distance. -/
def Receiver (scopes : List Scope) (k : Nat) : Prop :=
  hopsTo? thisName scopes = some k ∧ scopes[k]? = some receiverScope

/-- The nearest scope that binds a superclass is that of a class, at a distance. -/
def Superclass (scopes : List Scope) (k : Nat) : Prop :=
  hopsTo? superName scopes = some k ∧ scopes[k]? = some superclassScope

/-- The scopes behind a list of statements. -/
def afterAll (body : List Stmt) (scopes : List Scope) : List Scope :=
  body.foldl (fun scopes s => after s scopes) scopes

theorem tail_enter (name : String) (status : Status) (scopes : List Scope) :
    (enter name status scopes).tail = scopes.tail := by
  cases scopes <;> rfl

theorem tail_after (s : Stmt) (scopes : List Scope) : (after s scopes).tail = scopes.tail := by
  unfold after
  split
  · rw [declare, tail_enter, tail_enter]
  · rfl

/-- Statements change the innermost scope alone. -/
theorem tail_afterAll (body : List Stmt) (scopes : List Scope) :
    (afterAll body scopes).tail = scopes.tail := by
  induction body generalizing scopes with
  | nil => rfl
  | cons s rest ih => exact (ih (after s scopes)).trans (tail_after s scopes)

theorem after_of_none {s : Stmt} (h : s.declared? = none) (scopes : List Scope) :
    after s scopes = scopes := by
  rw [after, h]

/-- The global scope keeps no record of what is declared in it. -/
theorem after_global (s : Stmt) : after s [] = [] := by
  unfold after
  cases s.declared? <;> rfl

/-- Parameters are declared in the scope of the body, one after the other. -/
theorem declare_parameters (parameters : List Ident) (outer : List Scope) :
    parameters.foldl (fun scopes p => declare p.name scopes) ([] :: outer) =
      parameterScope parameters :: outer := by
  have hfold : ∀ scope : Scope,
      parameters.foldl (fun scopes p => declare p.name scopes) (scope :: outer) =
        parameters.foldl (fun scope p => (p.name, .defined) :: (p.name, .declared) :: scope) scope ::
          outer := by
    induction parameters with
    | nil => exact fun _ => rfl
    | cons p rest ih => exact fun _ => ih _
  exact hfold []

end Scope

/-- The lookups of mentions, and the scopes around functions. -/
structure Notes where
  lookups : List Lookup
  sites : List (NodeId × List Scope)

/-- A mention was looked up under the scopes. -/
def Notes.Mentions (n : Notes) (scopes : List Scope) (r : Reference) : Prop :=
  ⟨r, hopsTo? r.ident.name scopes⟩ ∈ n.lookups

open Scope (enter declare Fresh Ready Receiver Superclass)

mutual

def Expr.Addressed (n : Notes) (scopes : List Scope) : Expr → Prop
  | .constant _ => True
  | .grouping inner => inner.Addressed n scopes
  | .unary _ _ operand => operand.Addressed n scopes
  | .binary left _ _ right => left.Addressed n scopes ∧ right.Addressed n scopes
  | .logical left _ right => left.Addressed n scopes ∧ right.Addressed n scopes
  | .read r => Plain r.ident.name ∧ Ready r.ident.name scopes ∧ n.Mentions scopes r
  | .assign r value => Plain r.ident.name ∧ value.Addressed n scopes ∧ n.Mentions scopes r
  | .call callee _ arguments => callee.Addressed n scopes ∧ Expr.AllAddressed n scopes arguments
  | .get object _ => object.Addressed n scopes
  | .set object _ value => value.Addressed n scopes ∧ object.Addressed n scopes
  | .this id position => n.Mentions scopes (.this id position) ∧ ∃ k, Receiver scopes k
  | .super id position _ =>
    n.Mentions scopes (.super id position) ∧ ∃ k, Receiver scopes k ∧ Superclass scopes (k + 1)

def Expr.AllAddressed (n : Notes) (scopes : List Scope) : List Expr → Prop
  | [] => True
  | e :: rest => e.Addressed n scopes ∧ Expr.AllAddressed n scopes rest

end

mutual

def Stmt.Addressed (n : Notes) (scopes : List Scope) : Stmt → Prop
  | .expression e => e.Addressed n scopes
  | .print e => e.Addressed n scopes
  | .var name none => Plain name.name ∧ Fresh name.name scopes
  | .var name (some e) =>
    Plain name.name ∧ Fresh name.name scopes ∧ e.Addressed n (enter name.name .declared scopes)
  | .block body => Stmt.AllAddressed n ([] :: scopes) body
  | .ifThen condition thenBranch =>
    condition.Addressed n scopes ∧ thenBranch.declared? = none ∧ thenBranch.Addressed n scopes
  | .ifElse condition thenBranch elseBranch =>
    condition.Addressed n scopes ∧
      (thenBranch.declared? = none ∧ thenBranch.Addressed n scopes) ∧
        elseBranch.declared? = none ∧ elseBranch.Addressed n scopes
  | .loop condition body none =>
    condition.Addressed n scopes ∧ body.declared? = none ∧ body.Addressed n scopes
  | .loop condition body (some increment) =>
    condition.Addressed n scopes ∧ (body.declared? = none ∧ body.Addressed n scopes) ∧
      increment.Addressed n scopes
  | .breakLoop _ => True
  | .continueLoop _ => True
  | .function d =>
    Plain d.name.name ∧ Fresh d.name.name scopes ∧
      (d.id, declare d.name.name scopes) ∈ n.sites ∧ d.Addressed n (declare d.name.name scopes)
  | .returnValue _ none => True
  | .returnValue _ (some e) => e.Addressed n scopes
  | .classDecl name none methods =>
    Plain name.name ∧ Fresh name.name scopes ∧
      FunctionDecl.AllAddressed n (declare name.name scopes) methods
  | .classDecl name (some superclass) methods =>
    Plain name.name ∧ Fresh name.name scopes ∧
      (Plain superclass.ident.name ∧ Ready superclass.ident.name (enter name.name .declared scopes) ∧
        n.Mentions (enter name.name .declared scopes) superclass) ∧
      FunctionDecl.AllAddressed n (superclassScope :: declare name.name scopes) methods

def Stmt.AllAddressed (n : Notes) (scopes : List Scope) : List Stmt → Prop
  | [] => True
  | s :: rest => s.Addressed n scopes ∧ Stmt.AllAddressed n (Scope.after s scopes) rest

/-- A function whose body sees the scopes around its own. -/
def FunctionDecl.Addressed (n : Notes) (scopes : List Scope) : FunctionDecl → Prop
  | ⟨_, _, parameters, body⟩ =>
    (∀ p ∈ parameters, Plain p.name) ∧
      Stmt.AllAddressed n (parameterScope parameters :: scopes) body

/-- The methods of a class; a scope that binds the receiver comes between a body and the class. -/
def FunctionDecl.AllAddressed (n : Notes) (scopes : List Scope) : List FunctionDecl → Prop
  | [] => True
  | m :: rest =>
    ((m.id, scopes) ∈ n.sites ∧ m.Addressed n (receiverScope :: scopes)) ∧
      FunctionDecl.AllAddressed n scopes rest

end

namespace Resolver

/-! ### Walks -/

/-- A walk over some nodes has ended under the scopes `after`; what it took down makes `good` true. -/
def Walked (s : State) (after : List Scope) (nodes : List NodeId) (good : Notes → Prop) (s' : State) :
    Prop :=
  s'.scopes = after ∧ ∃ (ls : List Lookup) (ss : List (NodeId × List Scope)),
    s'.lookups.toList = s.lookups.toList ++ ls ∧ (ls.map (·.reference.id)).Sublist nodes ∧
      (ss.map Prod.fst).Sublist nodes ∧ ∀ n : Notes, ls ⊆ n.lookups → ss ⊆ n.sites → good n

/-- A walk over some nodes has taken down no mentions but those at the nodes. -/
def Visited (s : State) (nodes : List NodeId) (s' : State) : Prop :=
  ∃ ls : List Lookup, s'.lookups.toList = s.lookups.toList ++ ls ∧ ∀ l ∈ ls, l.reference.id ∈ nodes

/-- The walk over some nodes ends as `Walked` says or fails on the way. -/
def Walks (x : Resolver Unit) (s : State) (after : List Scope) (nodes : List NodeId)
    (good : Notes → Prop) : Prop :=
  Ends x s (fun _ s' => Walked s after nodes good s') fun _ s' => Visited s nodes s'

namespace Walks

variable {x : Resolver Unit} {f : Unit → Resolver Unit} {s : State} {mid after : List Scope}
  {nodes nodes' : List NodeId} {good good' : Notes → Prop}

/-- A step that takes nothing down. -/
theorem silent {u : State → State} (hscopes : (u s).scopes = after)
    (hlookups : (u s).lookups = s.lookups) : Walks (modify u) s after [] fun _ => True := by
  refine Ends.of_modify ⟨hscopes, [], [], ?_, .slnil, .slnil, fun _ _ _ => trivial⟩
  rw [hlookups, List.append_nil]

theorem pure (hscopes : s.scopes = after) : Walks (Pure.pure ()) s after [] fun _ => True :=
  Ends.pure ⟨hscopes, [], [], by simp, .slnil, .slnil, fun _ _ _ => trivial⟩

theorem fail (position : Position) (fault : ScopeFault) :
    Walks (failAt position fault) s after nodes good :=
  Ends.throw ⟨[], by simp, by simp⟩

theorem imp {good₂ : Notes → Prop} (hx : Walks x s after nodes good) (h : ∀ n, good n → good₂ n) :
    Walks x s after nodes good₂ := by
  refine Ends.imp hx ?_ fun _ _ he => he
  rintro _ s' ⟨hscopes, ls, ss, hlookups, hls, hss, hgood⟩
  exact ⟨hscopes, ls, ss, hlookups, hls, hss, fun n hn hn' => h n (hgood n hn hn')⟩

theorem conform {after' : List Scope} {good₂ : Notes → Prop} (hx : Walks x s after nodes good)
    (hafter : after = after') (hnodes : nodes = nodes') (h : ∀ n, good n → good₂ n) :
    Walks x s after' nodes' good₂ := by
  subst hafter hnodes
  exact hx.imp h

theorem bind (hx : Walks x s mid nodes good)
    (hf : ∀ s', s'.scopes = mid → Walks (f ()) s' after nodes' good') :
    Walks (x >>= f) s after (nodes ++ nodes') fun n => good n ∧ good' n := by
  have hx' : Ends x s (fun _ s' => Walked s mid nodes good s') fun _ s' =>
      Visited s (nodes ++ nodes') s' := by
    refine Ends.imp hx (fun _ _ h => h) ?_
    rintro _ s' ⟨ls, hlookups, hls⟩
    exact ⟨ls, hlookups, fun l hl => List.mem_append_left _ (hls l hl)⟩
  refine hx'.bind ?_
  rintro _ s' ⟨hscopes, ls, ss, hlookups, hls, hss, hgood⟩
  refine Ends.imp (hf s' hscopes) ?_ ?_
  · rintro _ s'' ⟨hscopes', ls', ss', hlookups', hls', hss', hgood'⟩
    refine ⟨hscopes', ls ++ ls', ss ++ ss', ?_, ?_, ?_, fun n hn hn' => ⟨?_, ?_⟩⟩
    · rw [hlookups', hlookups, List.append_assoc]
    · rw [List.map_append]
      exact hls.append hls'
    · rw [List.map_append]
      exact hss.append hss'
    · exact hgood n (fun l hl => hn (List.mem_append_left _ hl))
        fun p hp => hn' (List.mem_append_left _ hp)
    · exact hgood' n (fun l hl => hn (List.mem_append_right _ hl))
        fun p hp => hn' (List.mem_append_right _ hp)
  · rintro _ s'' ⟨ls', hlookups', hls'⟩
    refine ⟨ls ++ ls', by rw [hlookups', hlookups, List.append_assoc], fun l hl => ?_⟩
    rcases List.mem_append.mp hl with h | h
    · exact List.mem_append_left _ (hls.subset (List.mem_map_of_mem h))
    · exact List.mem_append_right _ (hls' l h)

/-- A rule that is checked before the walk goes on. -/
theorem guarded (position : Position) (fault : ScopeFault) {p : Prop} [Decidable p]
    (hf : ¬p → Walks (f ()) s after nodes good) :
    Walks (if p then failAt position fault >>= f else f ()) s after nodes good := by
  split
  case isTrue => exact Ends.throw ⟨[], by simp, by simp⟩
  case isFalse h => exact hf h

/-- The scopes around a function are taken down at its node. -/
theorem at_site {id : NodeId} (scopes : List Scope) (hx : Walks x s after nodes good) :
    Walks x s after (id :: nodes) fun n => (id, scopes) ∈ n.sites ∧ good n := by
  refine Ends.imp hx ?_ ?_
  · rintro _ s' ⟨hscopes, ls, ss, hlookups, hls, hss, hgood⟩
    refine ⟨hscopes, ls, (id, scopes) :: ss, hlookups, hls.cons id, hss.cons_cons id, fun n hn hn' => ?_⟩
    exact ⟨hn' List.mem_cons_self, hgood n hn fun p hp => hn' (List.mem_cons_of_mem _ hp)⟩
  · rintro _ s' ⟨ls, hlookups, hls⟩
    exact ⟨ls, hlookups, fun l hl => List.mem_cons_of_mem _ (hls l hl)⟩

end Walks

/-! ### Steps of the walk -/

section Steps

variable {s : State} {scopes : List Scope}

theorem note_walks (r : Reference) (hs : s.scopes = scopes) :
    Walks (note r) s scopes [r.id] fun n => n.Mentions scopes r := by
  refine Ends.of_modify ⟨hs, [⟨r, hopsTo? r.ident.name s.scopes⟩], [], ?_, ?_, ?_, ?_⟩
  · exact Array.toList_push
  · exact List.Sublist.refl _
  · exact List.nil_sublist _
  · exact fun n hn _ => hs ▸ hn List.mem_cons_self

theorem bind_walks (name : String) (status : Scope.Status) (hs : s.scopes = scopes) :
    Walks (bind name status) s (enter name status scopes) [] fun _ => True := by
  subst hs
  refine Walks.silent ?_ ?_ <;> cases h : s.scopes <;> simp [h, enter]

theorem pushScope_walks (hs : s.scopes = scopes) :
    Walks pushScope s ([] :: scopes) [] fun _ => True :=
  Walks.silent (by rw [hs]) rfl

theorem popScope_walks (hs : s.scopes.tail = scopes) : Walks popScope s scopes [] fun _ => True :=
  Walks.silent hs rfl

/-- Only a fresh name can be declared. -/
theorem declare_walks (name : Ident) (hs : s.scopes = scopes) :
    Walks (declare name) s (enter name.name .declared scopes) [] fun _ => Fresh name.name scopes := by
  refine Ends.get_bind ?_
  rw [hs]
  cases scopes with
  | nil => exact (Walks.pure hs).imp fun _ _ => rfl
  | cons scope outer =>
    cases hlookup : scope.lookup name.name with
    | some status =>
      simp only [hlookup, Option.isSome_some, ↓reduceIte]
      exact Walks.fail _ _
    | none =>
      simp only [hlookup, Option.isSome_none, Bool.false_eq_true, ↓reduceIte]
      exact (bind_walks _ _ hs).imp fun _ _ => by simpa [Fresh] using hlookup

theorem read_walks (r : Reference) (hs : s.scopes = scopes) :
    Walks (read r) s scopes [r.id] fun n => Ready r.ident.name scopes ∧ n.Mentions scopes r := by
  refine Ends.get_bind ?_
  split
  case isTrue => exact Walks.fail _ _
  case isFalse hready => exact (note_walks r hs).imp fun _ h => ⟨hs ▸ hready, h⟩

end Steps

/-! ### The scopes of classes -/

theorem hopsTo?_cons {name : String} {scope : Scope} {outer : List Scope}
    (h : scope.lookup name = none) :
    hopsTo? name (scope :: outer) = (hopsTo? name outer).map (· + 1) := by
  simp [hopsTo?, h]

theorem hopsTo?_enter {name entry : String} (status : Scope.Status) (scopes : List Scope)
    (h : name ≠ entry) : hopsTo? name (enter entry status scopes) = hopsTo? name scopes := by
  cases scopes with
  | nil => rfl
  | cons scope outer =>
    have hlookup : ((entry, status) :: scope).lookup name = scope.lookup name := by
      simp [List.lookup_cons, beq_false_of_ne h]
    simp only [enter, hopsTo?, hlookup]

theorem enter_getElem?_succ (entry : String) (status : Scope.Status) (scopes : List Scope) (k : Nat) :
    (enter entry status scopes)[k + 1]? = scopes[k + 1]? := by
  cases scopes <;> rfl

/-- The scopes around a place agree with the class around it. The receiver's scope is never the
innermost one, since the body of a method has a scope of its own. -/
def Fits : ClassContext → List Scope → Prop
  | .outside, _ => True
  | .root, scopes => ∃ k, Receiver scopes (k + 1)
  | .derived, scopes => ∃ k, Receiver scopes (k + 1) ∧ Superclass scopes (k + 2)

namespace Fits

variable {c : ClassContext} {scopes : List Scope}

theorem receiver (h : Fits c scopes) (hc : c ≠ .outside) : ∃ k, Receiver scopes k := by
  cases c with
  | outside => exact absurd rfl hc
  | root =>
    obtain ⟨k, hk⟩ := h
    exact ⟨k + 1, hk⟩
  | derived =>
    obtain ⟨k, hk, _⟩ := h
    exact ⟨k + 1, hk⟩

/-- Entering a block or a function changes nothing about the class. -/
theorem push (h : Fits c scopes) : Fits c ([] :: scopes) := by
  have hreceiver : ∀ {k}, Receiver scopes k → Receiver ([] :: scopes) (k + 1) := by
    rintro k ⟨hhops, hscope⟩
    exact ⟨by rw [hopsTo?_cons rfl, hhops]; rfl, hscope⟩
  have hsuperclass : ∀ {k}, Superclass scopes k → Superclass ([] :: scopes) (k + 1) := by
    rintro k ⟨hhops, hscope⟩
    exact ⟨by rw [hopsTo?_cons rfl, hhops]; rfl, hscope⟩
  cases c with
  | outside => trivial
  | root =>
    obtain ⟨k, hk⟩ := h
    exact ⟨k + 1, hreceiver hk⟩
  | derived =>
    obtain ⟨k, hk, hsuper⟩ := h
    exact ⟨k + 1, hreceiver hk, hsuperclass hsuper⟩

/-- Nor does a declaration. -/
theorem enter {name : String} (h : Fits c scopes) (hname : Plain name) (status : Scope.Status) :
    Fits c (Scope.enter name status scopes) := by
  have hreceiver : ∀ {k}, Receiver scopes (k + 1) →
      Receiver (Scope.enter name status scopes) (k + 1) := by
    rintro k ⟨hhops, hscope⟩
    exact ⟨by rw [hopsTo?_enter _ _ hname.1.symm, hhops], by rw [enter_getElem?_succ, hscope]⟩
  have hsuperclass : ∀ {k}, Superclass scopes (k + 1) →
      Superclass (Scope.enter name status scopes) (k + 1) := by
    rintro k ⟨hhops, hscope⟩
    exact ⟨by rw [hopsTo?_enter _ _ hname.2.symm, hhops], by rw [enter_getElem?_succ, hscope]⟩
  cases c with
  | outside => trivial
  | root =>
    obtain ⟨k, hk⟩ := h
    exact ⟨k, hreceiver hk⟩
  | derived =>
    obtain ⟨k, hk, hsuper⟩ := h
    exact ⟨k, hreceiver hk, hsuperclass hsuper⟩

theorem declare {name : String} (h : Fits c scopes) (hname : Plain name) :
    Fits c (Scope.declare name scopes) :=
  (h.enter hname .declared).enter hname .defined

theorem after {s : Stmt} (h : Fits c scopes) (hs : ∀ name ∈ s.declared?, Plain name) :
    Fits c (Scope.after s scopes) := by
  unfold Scope.after
  cases hname : s.declared? with
  | none => exact h
  | some name => exact h.declare (hs name hname)

/-- The body of a method sees the scope of the receiver around its own. -/
theorem method (scopes : List Scope) : Fits .root ([] :: receiverScope :: scopes) :=
  ⟨0, rfl, rfl⟩

/-- If the class has a superclass, the scope around that one binds it. -/
theorem derived (scopes : List Scope) :
    Fits .derived ([] :: receiverScope :: superclassScope :: scopes) :=
  ⟨0, ⟨rfl, rfl⟩, rfl, rfl⟩

end Fits

/-! ### Expressions -/

mutual

theorem expression_walks (c : Context) : ∀ (e : Expr) {s : State} {scopes : List Scope},
    e.WellFormed → Fits c.cls scopes → s.scopes = scopes →
      Walks (expression c e) s scopes e.nodes fun n => e.Addressed n scopes
  | .constant _, _, _, _, _, hs => Walks.pure hs
  | .grouping inner, _, _, hwell, hfits, hs => expression_walks c inner hwell hfits hs
  | .unary _ _ operand, _, _, hwell, hfits, hs => expression_walks c operand hwell hfits hs
  | .binary left _ _ right, _, _, hwell, hfits, hs =>
    (expression_walks c left hwell.1 hfits hs).bind fun _ => expression_walks c right hwell.2 hfits
  | .logical left _ right, _, _, hwell, hfits, hs =>
    (expression_walks c left hwell.1 hfits hs).bind fun _ => expression_walks c right hwell.2 hfits
  | .read r, _, _, hwell, _, hs => (read_walks r hs).imp fun _ h => ⟨hwell, h⟩
  | .assign r value, _, _, hwell, hfits, hs =>
    ((expression_walks c value hwell.2 hfits hs).bind fun _ => note_walks r).imp
      fun _ h => ⟨hwell.1, h⟩
  | .call callee _ arguments, _, _, hwell, hfits, hs =>
    (expression_walks c callee hwell.1 hfits hs).bind fun _ => expressions_walk c arguments hwell.2 hfits
  | .get object _, _, _, hwell, hfits, hs => expression_walks c object hwell hfits hs
  | .set object _ value, _, _, hwell, hfits, hs =>
    (expression_walks c value hwell.2 hfits hs).bind fun _ => expression_walks c object hwell.1 hfits
  | .this id position, s, scopes, _, hfits, hs => by
    unfold expression
    split
    case isTrue => exact Walks.fail _ _
    case isFalse hc =>
      exact (note_walks (.this id position) hs).imp fun _ h => ⟨h, hfits.receiver hc⟩
  | .super id position _, s, scopes, _, hfits, hs => by
    unfold expression
    cases hc : c.cls with
    | outside => exact Walks.fail _ _
    | root => exact Walks.fail _ _
    | derived =>
      rw [hc] at hfits
      obtain ⟨k, hk⟩ := hfits
      exact (note_walks (.super id position) hs).imp fun _ h => ⟨h, k + 1, hk⟩

theorem expressions_walk (c : Context) : ∀ (es : List Expr) {s : State} {scopes : List Scope},
    Expr.AllWellFormed es → Fits c.cls scopes → s.scopes = scopes →
      Walks (expressions c es) s scopes (Expr.allNodes es) fun n => Expr.AllAddressed n scopes es
  | [], _, _, _, _, hs => Walks.pure hs
  | e :: rest, _, _, hwell, hfits, hs =>
    (expression_walks c e hwell.1 hfits hs).bind fun _ => expressions_walk c rest hwell.2 hfits

end

/-! ### Statements -/

/-- What a well formed statement declares can be declared. -/
theorem plain_of_declared {s : Stmt} (hwell : s.WellFormed) : ∀ name ∈ s.declared?, Plain name := by
  intro name hname
  cases s with
  | var x e =>
    obtain rfl : x.name = name := by simpa [Stmt.declared?] using hname
    cases e with
    | none => exact hwell
    | some e => exact hwell.1
  | function d =>
    obtain rfl : d.name.name = name := by simpa [Stmt.declared?] using hname
    exact FunctionDecl.WellFormed.name hwell
  | classDecl x superclass methods =>
    obtain rfl : x.name = name := by simpa [Stmt.declared?] using hname
    cases superclass <;> exact hwell.1
  | _ => cases hname

theorem parameters_walk (names : List Ident) {s : State} {scopes : List Scope}
    (hs : s.scopes = scopes) :
    Walks (parameters names) s (names.foldl (fun scopes p => Scope.declare p.name scopes) scopes) []
      fun _ => True := by
  induction names generalizing s scopes with
  | nil => exact Walks.pure hs
  | cons p rest ih =>
    refine ((declare_walks p hs).bind fun _ h₁ =>
      (bind_walks p.name .defined h₁).bind fun _ h₂ => ih h₂).conform rfl rfl fun _ _ => trivial

theorem Fits.parameters {c : ClassContext} {names : List Ident} {scopes : List Scope}
    (h : Fits c ([] :: scopes)) (hnames : ∀ p ∈ names, Plain p.name) :
    Fits c (parameterScope names :: scopes) := by
  rw [← Scope.declare_parameters]
  generalize [] :: scopes = inner at h
  induction names generalizing inner with
  | nil => exact h
  | cons p rest ih =>
    exact ih (fun q hq => hnames q (List.mem_cons_of_mem _ hq)) _
      (h.declare (hnames p List.mem_cons_self))

/-- A superclass is looked up behind the name of its class, which makes no difference to it. -/
theorem superclass_walks (name : Ident) (superclass : Reference) {s : State} {scopes : List Scope}
    (hne : superclass.ident.name ≠ name.name) (hs : s.scopes = Scope.declare name.name scopes) :
    Walks (read superclass) s (Scope.declare name.name scopes) [superclass.id] fun n =>
      Ready superclass.ident.name (enter name.name .declared scopes) ∧
        n.Mentions (enter name.name .declared scopes) superclass := by
  refine (read_walks superclass hs).imp ?_
  rintro n ⟨hready, hmentions⟩
  refine ⟨?_, ?_⟩
  · cases scopes with
    | nil => exact fun h => by cases h
    | cons scope outer =>
      simpa [Ready, Scope.declare, enter, List.lookup_cons, beq_false_of_ne hne] using hready
  · rw [Notes.Mentions, Scope.declare, hopsTo?_enter _ _ hne] at hmentions
    exact hmentions

mutual

theorem statement_walks : ∀ (c : Context) (stmt : Stmt) {s : State} {scopes : List Scope},
    stmt.WellFormed → Fits c.cls scopes → s.scopes = scopes →
      Walks (statement c stmt) s (Scope.after stmt scopes) stmt.nodes fun n => stmt.Addressed n scopes
  | c, .expression e, _, _, hwell, hfits, hs => expression_walks c e hwell hfits hs
  | c, .print e, _, _, hwell, hfits, hs => expression_walks c e hwell hfits hs
  | c, .var name none, _, _, hwell, hfits, hs =>
    ((declare_walks name hs).bind fun _ h₁ => bind_walks name.name .defined h₁).imp
      fun _ h => ⟨hwell, h.1⟩
  | c, .var name (some e), _, _, hwell, hfits, hs =>
    ((declare_walks name hs).bind fun _ h₁ =>
      (expression_walks c e hwell.2 (hfits.enter hwell.1 .declared) h₁).bind fun _ h₂ =>
        bind_walks name.name .defined h₂).conform rfl (List.append_nil _)
      fun _ h => ⟨hwell.1, h.1, h.2.1⟩
  | c, .block body, _, _, hwell, hfits, hs =>
    ((pushScope_walks hs).bind fun _ h₁ =>
      (statements_walk c body hwell hfits.push h₁).bind fun _ h₂ =>
        popScope_walks (by rw [h₂, Scope.tail_afterAll]; rfl)).conform rfl (List.append_nil _)
      fun _ h => h.2.1
  | c, .ifThen condition thenBranch, _, scopes, hwell, hfits, hs =>
    ((expression_walks c condition hwell.1 hfits hs).bind fun _ h₁ =>
      statement_walks c thenBranch hwell.2.2 hfits h₁).conform
      (Scope.after_of_none hwell.2.1 scopes) rfl fun _ h => ⟨h.1, hwell.2.1, h.2⟩
  | c, .ifElse condition thenBranch elseBranch, _, scopes, hwell, hfits, hs =>
    ((expression_walks c condition hwell.1 hfits hs).bind fun _ h₁ =>
      (statement_walks c thenBranch hwell.2.1.2 hfits h₁).bind fun _ h₂ =>
        statement_walks c elseBranch hwell.2.2.2 hfits
          (h₂.trans (Scope.after_of_none hwell.2.1.1 scopes))).conform
      (Scope.after_of_none hwell.2.2.1 scopes) rfl
      fun _ h => ⟨h.1, ⟨hwell.2.1.1, h.2.1⟩, hwell.2.2.1, h.2.2⟩
  | c, .loop condition body none, _, scopes, hwell, hfits, hs =>
    ((expression_walks c condition hwell.1 hfits hs).bind fun _ h₁ =>
      statement_walks { c with inLoop := true } body hwell.2.2 hfits h₁).conform
      (Scope.after_of_none hwell.2.1 scopes) rfl fun _ h => ⟨h.1, hwell.2.1, h.2⟩
  | c, .loop condition body (some increment), _, scopes, hwell, hfits, hs =>
    ((expression_walks c condition hwell.1 hfits hs).bind fun _ h₁ =>
      (statement_walks { c with inLoop := true } body hwell.2.1.2 hfits h₁).bind fun _ h₂ =>
        expression_walks c increment hwell.2.2 hfits
          (h₂.trans (Scope.after_of_none hwell.2.1.1 scopes))).conform rfl rfl
      fun _ h => ⟨h.1, ⟨hwell.2.1.1, h.2.1⟩, h.2.2⟩
  | c, .breakLoop position, _, _, _, _, hs => by
    unfold statement
    split
    · exact Walks.pure hs
    · exact Walks.fail _ _
  | c, .continueLoop position, _, _, _, _, hs => by
    unfold statement
    split
    · exact Walks.pure hs
    · exact Walks.fail _ _
  | c, .function d, _, scopes, hwell, hfits, hs =>
    have hname : Plain d.name.name := FunctionDecl.WellFormed.name hwell
    ((declare_walks d.name hs).bind fun _ h₁ =>
      (bind_walks d.name.name .defined h₁).bind fun _ h₂ =>
        function_walks c .function d (Scope.declare d.name.name scopes) hwell
          (hfits.declare hname).push h₂).conform rfl rfl
      fun _ h => ⟨hname, h.1, h.2.2⟩
  | c, .returnValue position none, _, _, _, _, hs => by
    unfold statement
    exact Walks.guarded _ _ fun _ => Walks.pure hs
  | c, .returnValue position (some e), _, _, hwell, hfits, hs => by
    unfold statement
    exact Walks.guarded _ _ fun _ => Walks.guarded _ _ fun _ => expression_walks c e hwell hfits hs
  | c, .classDecl name none methods, _, scopes, hwell, hfits, hs =>
    ((declare_walks name hs).bind fun _ h₁ =>
      (bind_walks name.name .defined h₁).bind fun _ h₂ =>
        (pushScope_walks h₂).bind fun _ h₃ =>
          (bind_walks thisName .defined h₃).bind fun _ h₄ =>
            (functions_walk { c with cls := .root } methods hwell.2 (Fits.method _) h₄).bind fun _ h₅ =>
              popScope_walks (by rw [h₅]; rfl)).conform rfl (List.append_nil _)
      fun _ h => ⟨hwell.1, h.1, h.2.2.2.2.1⟩
  | c, .classDecl name (some superclass) methods, _, scopes, hwell, hfits, hs =>
    ((declare_walks name hs).bind fun _ h₁ =>
      (bind_walks name.name .defined h₁).bind fun _ h₂ => Walks.guarded _ _ fun hne =>
        (superclass_walks name superclass hne h₂).bind fun _ h₃ =>
          (pushScope_walks h₃).bind fun _ h₄ => (bind_walks superName .defined h₄).bind fun _ h₅ =>
            (pushScope_walks h₅).bind fun _ h₆ => (bind_walks thisName .defined h₆).bind fun _ h₇ =>
              (functions_walk { c with cls := .derived } methods hwell.2.2 (Fits.derived _) h₇).bind
                fun _ h₈ => (popScope_walks (by rw [h₈])).bind fun _ h₉ =>
                  popScope_walks (by rw [h₉]; rfl)).conform rfl
      (congrArg (superclass.id :: ·) (List.append_nil _))
      fun _ h => ⟨hwell.1, h.1, ⟨hwell.2.1, h.2.2.1⟩, h.2.2.2.2.2.2.2.1⟩

/-- The scopes around a function are taken down with it. -/
theorem function_walks : ∀ (c : Context) (kind : FunctionContext) (d : FunctionDecl)
    (site : List Scope) {s : State} {scopes : List Scope}, d.WellFormed → Fits c.cls ([] :: scopes) →
      s.scopes = scopes → Walks (function c kind d) s scopes d.nodes fun n =>
        (d.id, site) ∈ n.sites ∧ d.Addressed n scopes
  | c, kind, ⟨id, _, names, body⟩, site, _, scopes, hwell, hfits, hs =>
    have hparameters : ∀ s : State, s.scopes =
        names.foldl (fun scopes p => Scope.declare p.name scopes) ([] :: scopes) →
        s.scopes = parameterScope names :: scopes := fun _ h =>
      h.trans (Scope.declare_parameters names scopes)
    (((pushScope_walks hs).bind fun _ h₁ =>
      (parameters_walk names h₁).bind fun s₂ h₂ =>
        (statements_walk { c with function := kind, inLoop := false } body hwell.2.2
          (hfits.parameters hwell.2.1) (hparameters s₂ h₂)).bind fun _ h₃ =>
          popScope_walks (by rw [h₃, Scope.tail_afterAll]; rfl)).at_site site).conform rfl
      (congrArg (id :: ·) (List.append_nil _)) fun _ h => ⟨h.1, hwell.2.1, h.2.2.2.1⟩

theorem statements_walk : ∀ (c : Context) (body : List Stmt) {s : State} {scopes : List Scope},
    Stmt.AllWellFormed body → Fits c.cls scopes → s.scopes = scopes →
      Walks (statements c body) s (Scope.afterAll body scopes) (Stmt.allNodes body)
        fun n => Stmt.AllAddressed n scopes body
  | _, [], _, _, _, _, hs => Walks.pure hs
  | c, stmt :: rest, _, _, hwell, hfits, hs =>
    (statement_walks c stmt hwell.1 hfits hs).bind fun _ =>
      statements_walk c rest hwell.2 (hfits.after (plain_of_declared hwell.1))

theorem functions_walk : ∀ (c : Context) (methods : List FunctionDecl) {s : State}
    {scopes : List Scope}, FunctionDecl.AllWellFormed methods →
      Fits c.cls ([] :: receiverScope :: scopes) → s.scopes = receiverScope :: scopes →
        Walks (functions c methods) s (receiverScope :: scopes) (FunctionDecl.allNodes methods)
          fun n => FunctionDecl.AllAddressed n scopes methods
  | _, [], _, _, _, _, hs => Walks.pure hs
  | c, m :: rest, _, scopes, hwell, hfits, hs =>
    (function_walks c (methodKind m.name) m scopes hwell.1 hfits hs).bind fun _ =>
      functions_walk c rest hwell.2.2 hfits

end

end Resolver

/-- A program without a fault of scope is addressed by the lookups of its mentions. -/
theorem resolve_addresses {program : List Stmt} (hwell : Stmt.AllWellFormed program)
    (hfault : (resolve program).fault = none) : ∃ n : Notes,
      n.lookups = (resolve program).lookups.toList ∧
        (n.lookups.map (·.reference.id)).Sublist (Stmt.allNodes program) ∧
          (n.sites.map Prod.fst).Sublist (Stmt.allNodes program) ∧
            Stmt.AllAddressed n [] program := by
  have h := Resolver.statements_walk Resolver.topLevel program (s := ⟨[], #[]⟩) hwell trivial rfl
  unfold Resolver.Walks Ends EStateM.run at h
  unfold resolve at hfault ⊢
  cases hrun : Resolver.statements Resolver.topLevel program ⟨[], #[]⟩ with
  | ok _ s =>
    rw [hrun] at h
    obtain ⟨_, ls, ss, hlookups, hls, hss, hgood⟩ := h
    have hls' : s.lookups.toList = ls := hlookups
    exact ⟨⟨ls, ss⟩, hls'.symm, hls, hss, hgood ⟨ls, ss⟩ (fun _ h => h) fun _ h => h⟩
  | error fault s =>
    rw [hrun] at hfault
    cases hfault

/-- A faulty program has no lookups but those at its own nodes. -/
theorem resolve_lookups {program : List Stmt} (hwell : Stmt.AllWellFormed program) :
    ∀ l ∈ (resolve program).lookups.toList, l.reference.id ∈ Stmt.allNodes program := by
  have h := Resolver.statements_walk Resolver.topLevel program (s := ⟨[], #[]⟩) hwell trivial rfl
  unfold Resolver.Walks Ends EStateM.run at h
  unfold resolve
  intro l hl
  cases hrun : Resolver.statements Resolver.topLevel program ⟨[], #[]⟩ with
  | ok _ s =>
    rw [hrun] at h hl
    obtain ⟨_, ls, ss, hlookups, hls, _⟩ := h
    have hls' : s.lookups.toList = ls := hlookups
    exact hls.subset (List.mem_map_of_mem (hls' ▸ hl))
  | error fault s =>
    rw [hrun] at h hl
    obtain ⟨ls, hlookups, hls⟩ := h
    have hls' : s.lookups.toList = ls := hlookups
    exact hls l (hls' ▸ hl)

end LoxLang
