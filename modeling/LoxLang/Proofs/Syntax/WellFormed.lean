import LoxLang.Syntax.Basic

/-!
What every parsed program is like, apart from its grammar: no variable is called `this` or `super`, the
branches of conditionals and the bodies of loops declare nothing, and all nodes have identities of their
own. `nodes` lists the identities in the order in which the resolver comes by them.
-/

namespace LoxLang

/-- A name that a program can give to a variable. -/
def Plain (name : String) : Prop :=
  name ≠ thisName ∧ name ≠ superName

/-- The name that a statement declares in the scope it stands in. -/
def Stmt.declared? : Stmt → Option String
  | .var name _ => some name.name
  | .function declaration => some declaration.name.name
  | .classDecl name _ _ => some name.name
  | _ => none

mutual

def Expr.WellFormed : Expr → Prop
  | .constant _ => True
  | .grouping inner => inner.WellFormed
  | .unary _ _ operand => operand.WellFormed
  | .binary left _ _ right => left.WellFormed ∧ right.WellFormed
  | .logical left _ right => left.WellFormed ∧ right.WellFormed
  | .read target => Plain target.ident.name
  | .assign target value => Plain target.ident.name ∧ value.WellFormed
  | .call callee _ arguments => callee.WellFormed ∧ Expr.AllWellFormed arguments
  | .get object _ => object.WellFormed
  | .set object _ value => object.WellFormed ∧ value.WellFormed
  | .this _ _ => True
  | .super _ _ _ => True

def Expr.AllWellFormed : List Expr → Prop
  | [] => True
  | e :: rest => e.WellFormed ∧ Expr.AllWellFormed rest

end

mutual

def Expr.nodes : Expr → List NodeId
  | .constant _ => []
  | .grouping inner => inner.nodes
  | .unary _ _ operand => operand.nodes
  | .binary left _ _ right => left.nodes ++ right.nodes
  | .logical left _ right => left.nodes ++ right.nodes
  | .read target => [target.id]
  | .assign target value => value.nodes ++ [target.id]
  | .call callee _ arguments => callee.nodes ++ Expr.allNodes arguments
  | .get object _ => object.nodes
  | .set object _ value => value.nodes ++ object.nodes
  | .this id _ => [id]
  | .super id _ _ => [id]

def Expr.allNodes : List Expr → List NodeId
  | [] => []
  | e :: rest => e.nodes ++ Expr.allNodes rest

end

mutual

def Stmt.WellFormed : Stmt → Prop
  | .expression e => e.WellFormed
  | .print e => e.WellFormed
  | .var name none => Plain name.name
  | .var name (some e) => Plain name.name ∧ e.WellFormed
  | .block body => Stmt.AllWellFormed body
  | .ifThen condition thenBranch =>
    condition.WellFormed ∧ thenBranch.declared? = none ∧ thenBranch.WellFormed
  | .ifElse condition thenBranch elseBranch =>
    condition.WellFormed ∧ (thenBranch.declared? = none ∧ thenBranch.WellFormed) ∧
      elseBranch.declared? = none ∧ elseBranch.WellFormed
  | .loop condition body none => condition.WellFormed ∧ body.declared? = none ∧ body.WellFormed
  | .loop condition body (some increment) =>
    condition.WellFormed ∧ (body.declared? = none ∧ body.WellFormed) ∧ increment.WellFormed
  | .breakLoop _ => True
  | .continueLoop _ => True
  | .function declaration => declaration.WellFormed
  | .returnValue _ none => True
  | .returnValue _ (some e) => e.WellFormed
  | .classDecl name none methods => Plain name.name ∧ FunctionDecl.AllWellFormed methods
  | .classDecl name (some superclass) methods =>
    Plain name.name ∧ Plain superclass.ident.name ∧ FunctionDecl.AllWellFormed methods

def Stmt.AllWellFormed : List Stmt → Prop
  | [] => True
  | s :: rest => s.WellFormed ∧ Stmt.AllWellFormed rest

def FunctionDecl.WellFormed : FunctionDecl → Prop
  | ⟨_, name, parameters, body⟩ =>
    Plain name.name ∧ (∀ p ∈ parameters, Plain p.name) ∧ Stmt.AllWellFormed body

def FunctionDecl.AllWellFormed : List FunctionDecl → Prop
  | [] => True
  | m :: rest => m.WellFormed ∧ m.id ∉ rest.map FunctionDecl.id ∧ FunctionDecl.AllWellFormed rest

end

mutual

def Stmt.nodes : Stmt → List NodeId
  | .expression e => e.nodes
  | .print e => e.nodes
  | .var _ none => []
  | .var _ (some e) => e.nodes
  | .block body => Stmt.allNodes body
  | .ifThen condition thenBranch => condition.nodes ++ thenBranch.nodes
  | .ifElse condition thenBranch elseBranch =>
    condition.nodes ++ (thenBranch.nodes ++ elseBranch.nodes)
  | .loop condition body none => condition.nodes ++ body.nodes
  | .loop condition body (some increment) => condition.nodes ++ (body.nodes ++ increment.nodes)
  | .breakLoop _ => []
  | .continueLoop _ => []
  | .function declaration => declaration.nodes
  | .returnValue _ none => []
  | .returnValue _ (some e) => e.nodes
  | .classDecl _ none methods => FunctionDecl.allNodes methods
  | .classDecl _ (some superclass) methods => superclass.id :: FunctionDecl.allNodes methods

def Stmt.allNodes : List Stmt → List NodeId
  | [] => []
  | s :: rest => s.nodes ++ Stmt.allNodes rest

def FunctionDecl.nodes : FunctionDecl → List NodeId
  | ⟨id, _, _, body⟩ => id :: Stmt.allNodes body

def FunctionDecl.allNodes : List FunctionDecl → List NodeId
  | [] => []
  | m :: rest => m.nodes ++ FunctionDecl.allNodes rest

end

namespace FunctionDecl

theorem WellFormed.name {d : FunctionDecl} (h : d.WellFormed) : Plain d.name.name := by
  obtain ⟨_, name, _, _⟩ := d
  exact h.1

theorem id_mem_nodes (d : FunctionDecl) : d.id ∈ d.nodes := by
  obtain ⟨id, name, parameters, body⟩ := d
  exact List.mem_cons_self

theorem ids_subset_allNodes (methods : List FunctionDecl) : methods.map FunctionDecl.id ⊆ allNodes methods := by
  induction methods with
  | nil => exact List.Subset.refl _
  | cons m rest ih =>
    exact List.cons_subset.mpr ⟨List.mem_append_left _ m.id_mem_nodes, fun id hid => List.mem_append_right _ (ih hid)⟩

/-- The methods of a class have identities of their own. -/
theorem nodup_ids {methods : List FunctionDecl} (h : AllWellFormed methods) : (methods.map FunctionDecl.id).Nodup := by
  induction methods with
  | nil => exact List.nodup_nil
  | cons m rest ih => exact List.nodup_cons.mpr ⟨h.2.1, ih h.2.2⟩

end FunctionDecl

/-- The identities are different from each other and were given out from `first` on, up to `next`. -/
structure GivenOut (first next : Nat) (ids : List Nat) : Prop where
  nodup : ids.Nodup
  range : ∀ id ∈ ids, first ≤ id ∧ id < next

namespace GivenOut

variable {first middle next : Nat} {a b ids : List Nat}

theorem nil : GivenOut first next [] :=
  ⟨List.nodup_nil, by simp⟩

theorem singleton {id : Nat} (hfirst : first ≤ id) (hnext : id < next) :
    GivenOut first next [id] :=
  ⟨by simp, by simp [hfirst, hnext]⟩

theorem widen {first' next' : Nat} (h : GivenOut first next ids) (hfirst : first' ≤ first)
    (hnext : next ≤ next') : GivenOut first' next' ids :=
  ⟨h.nodup, fun id hid => by have := h.range id hid; omega⟩

/-- Identities given out one after the other do not meet. -/
theorem append (ha : GivenOut first middle a) (hb : GivenOut middle next b) (hfirst : first ≤ middle)
    (hnext : middle ≤ next) : GivenOut first next (a ++ b) := by
  refine ⟨List.nodup_append.mpr ⟨ha.nodup, hb.nodup, ?_⟩, ?_⟩
  · intro i hi j hj heq
    have := ha.range i hi
    have := hb.range j hj
    omega
  · intro id hid
    rcases List.mem_append.mp hid with h | h
    · have := ha.range id h
      omega
    · have := hb.range id h
      omega

/-- Nor do they meet when the later ones are listed first. -/
theorem append_before (ha : GivenOut first middle a) (hb : GivenOut middle next b)
    (hfirst : first ≤ middle) (hnext : middle ≤ next) : GivenOut first next (b ++ a) :=
  have h := ha.append hb hfirst hnext
  ⟨(List.perm_append_comm.nodup_iff).mp h.nodup,
    fun id hid => h.range id (List.perm_append_comm.mem_iff.mp hid)⟩

theorem sublist (h : GivenOut first next b) (hab : a.Sublist b) : GivenOut first next a :=
  ⟨h.nodup.sublist hab, fun id hid => h.range id (hab.subset hid)⟩

end GivenOut

end LoxLang
