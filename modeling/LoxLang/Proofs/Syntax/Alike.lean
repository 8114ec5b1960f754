import Mathlib.Data.List.Forall2
import LoxLang.Proofs.Syntax.WellFormed

/-!
Trees that are the same but for the identities of their nodes and the places where they are written. How
these correspond is said by two relations, so that nodes and places of two programs can be compared which
were numbered and counted differently.
-/

namespace LoxLang

/-- How the nodes and the places of two programs correspond. -/
structure Skew where
  node : NodeId → NodeId → Prop
  place : Position → Position → Prop

/-- Trees that are written alike at the same places, with nodes of any identities. -/
def Skew.renumbering : Skew := ⟨fun _ _ => True, Eq⟩

/-- The skew pairs nodes off: none of them corresponds to two. -/
def Skew.Faithful (S : Skew) : Prop :=
  ∀ {i j i' j'}, S.node i j → S.node i' j' → (i = i' ↔ j = j')

/-- Among some nodes, whatever corresponds in one way does so in the other. -/
structure Skew.Within (S T : Skew) (ids : List NodeId) : Prop where
  node : ∀ {i j}, i ∈ ids → S.node i j → T.node i j
  place : ∀ {p q}, S.place p q → T.place p q

namespace Skew.Within

variable {S T : Skew} {i : NodeId} {a b : List NodeId}

theorem subset (h : S.Within T b) (hab : ∀ i ∈ a, i ∈ b) : S.Within T a :=
  ⟨fun hi => h.node (hab _ hi), h.place⟩

theorem left (h : S.Within T (a ++ b)) : S.Within T a :=
  h.subset fun _ hi => List.mem_append_left b hi

theorem right (h : S.Within T (a ++ b)) : S.Within T b :=
  h.subset fun _ hi => List.mem_append_right a hi

theorem head (h : S.Within T (i :: a)) : S.Within T [i] :=
  h.subset (by simp)

theorem tail (h : S.Within T (i :: a)) : S.Within T a :=
  h.subset fun _ hj => List.mem_cons_of_mem i hj

end Skew.Within

structure Ident.Alike (S : Skew) (a b : Ident) : Prop where
  name : a.name = b.name
  position : S.place a.position b.position

structure Reference.Alike (S : Skew) (a b : Reference) : Prop where
  id : S.node a.id b.id
  ident : a.ident.Alike S b.ident

inductive Expr.Alike (S : Skew) : Expr → Expr → Prop where
  | constant (value : Constant) : Alike S (.constant value) (.constant value)
  | grouping {a b : Expr} : Alike S a b → Alike S (.grouping a) (.grouping b)
  | unary (op : UnaryOp) {p q : Position} {a b : Expr} :
    S.place p q → Alike S a b → Alike S (.unary op p a) (.unary op q b)
  | binary {a a' b b' : Expr} (op : BinaryOp) {p q : Position} :
    Alike S a a' → S.place p q → Alike S b b' → Alike S (.binary a op p b) (.binary a' op q b')
  | logical {a a' b b' : Expr} (op : LogicalOp) :
    Alike S a a' → Alike S b b' → Alike S (.logical a op b) (.logical a' op b')
  | read {r r' : Reference} : r.Alike S r' → Alike S (.read r) (.read r')
  | assign {r r' : Reference} {a b : Expr} :
    r.Alike S r' → Alike S a b → Alike S (.assign r a) (.assign r' b)
  | call {f g : Expr} {p q : Position} {as bs : List Expr} :
    Alike S f g → S.place p q → List.Forall₂ (Alike S) as bs →
      Alike S (.call f p as) (.call g q bs)
  | get {a b : Expr} {x y : Ident} : Alike S a b → x.Alike S y → Alike S (.get a x) (.get b y)
  | set {a a' b b' : Expr} {x y : Ident} :
    Alike S a a' → x.Alike S y → Alike S b b' → Alike S (.set a x b) (.set a' y b')
  | this {i j : NodeId} {p q : Position} : S.node i j → S.place p q → Alike S (.this i p) (.this j q)
  | super {i j : NodeId} {p q : Position} {x y : Ident} :
    S.node i j → S.place p q → x.Alike S y → Alike S (.super i p x) (.super j q y)

mutual

inductive Stmt.Alike (S : Skew) : Stmt → Stmt → Prop where
  | expression {a b : Expr} : a.Alike S b → Stmt.Alike S (.expression a) (.expression b)
  | print {a b : Expr} : a.Alike S b → Stmt.Alike S (.print a) (.print b)
  | var {x y : Ident} {a b : Option Expr} :
    x.Alike S y → Option.Rel (Expr.Alike S) a b → Stmt.Alike S (.var x a) (.var y b)
  | block {as bs : List Stmt} :
    List.Forall₂ (Stmt.Alike S) as bs → Stmt.Alike S (.block as) (.block bs)
  | ifThen {c d : Expr} {a b : Stmt} :
    c.Alike S d → Stmt.Alike S a b → Stmt.Alike S (.ifThen c a) (.ifThen d b)
  | ifElse {c d : Expr} {a a' b b' : Stmt} :
    c.Alike S d → Stmt.Alike S a a' → Stmt.Alike S b b' →
      Stmt.Alike S (.ifElse c a b) (.ifElse d a' b')
  | loop {c d : Expr} {a b : Stmt} {i j : Option Expr} :
    c.Alike S d → Stmt.Alike S a b → Option.Rel (Expr.Alike S) i j →
      Stmt.Alike S (.loop c a i) (.loop d b j)
  | breakLoop {p q : Position} : S.place p q → Stmt.Alike S (.breakLoop p) (.breakLoop q)
  | continueLoop {p q : Position} : S.place p q → Stmt.Alike S (.continueLoop p) (.continueLoop q)
  | function {f g : FunctionDecl} :
    FunctionDecl.Alike S f g → Stmt.Alike S (.function f) (.function g)
  | returnValue {p q : Position} {a b : Option Expr} :
    S.place p q → Option.Rel (Expr.Alike S) a b → Stmt.Alike S (.returnValue p a) (.returnValue q b)
  | classDecl {x y : Ident} {c d : Option Reference} {ms ns : List FunctionDecl} :
    x.Alike S y → Option.Rel (Reference.Alike S) c d → List.Forall₂ (FunctionDecl.Alike S) ms ns →
      Stmt.Alike S (.classDecl x c ms) (.classDecl y d ns)

inductive FunctionDecl.Alike (S : Skew) : FunctionDecl → FunctionDecl → Prop where
  | mk {i j : NodeId} {x y : Ident} {ps qs : List Ident} {as bs : List Stmt} :
    S.node i j → x.Alike S y → List.Forall₂ (Ident.Alike S) ps qs →
      List.Forall₂ (Stmt.Alike S) as bs → FunctionDecl.Alike S ⟨i, x, ps, as⟩ ⟨j, y, qs, bs⟩

end

namespace FunctionDecl.Alike

variable {S : Skew} {f g : FunctionDecl}

theorem id (h : f.Alike S g) : S.node f.id g.id := by
  obtain ⟨hid, _, _, _⟩ := h
  exact hid

theorem name (h : f.Alike S g) : f.name.Alike S g.name := by
  obtain ⟨_, hname, _, _⟩ := h
  exact hname

theorem parameters (h : f.Alike S g) : List.Forall₂ (Ident.Alike S) f.parameters g.parameters := by
  obtain ⟨_, _, hparameters, _⟩ := h
  exact hparameters

theorem body (h : f.Alike S g) : List.Forall₂ (Stmt.Alike S) f.body g.body := by
  obtain ⟨_, _, _, hbody⟩ := h
  exact hbody

end FunctionDecl.Alike

/-! ### Other correspondences -/

variable {S T : Skew}

theorem Ident.Alike.imp {a b : Ident} (h : a.Alike S b) (hplace : ∀ {p q}, S.place p q → T.place p q) :
    a.Alike T b :=
  ⟨h.name, hplace h.position⟩

theorem Ident.allAlike_imp {as bs : List Ident} (h : List.Forall₂ (Ident.Alike S) as bs)
    (hplace : ∀ {p q}, S.place p q → T.place p q) : List.Forall₂ (Ident.Alike T) as bs :=
  h.imp fun _ _ hab => hab.imp hplace

theorem Reference.Alike.imp {a b : Reference} (h : a.Alike S b) (hST : S.Within T [a.id]) :
    a.Alike T b :=
  ⟨hST.node List.mem_cons_self h.id, h.ident.imp hST.place⟩

mutual

/-- Trees that are alike in one way are alike in another which keeps to it at their nodes. -/
theorem Expr.Alike.imp : ∀ {a b : Expr}, a.Alike S b → S.Within T a.nodes → a.Alike T b
  | .constant _, _, .constant value, _ => .constant value
  | .grouping _, _, .grouping h, hST => .grouping (h.imp hST)
  | .unary .., _, .unary op hp h, hST => .unary op (hST.place hp) (h.imp hST)
  | .binary .., _, .binary op h hp h', hST =>
    .binary op (h.imp hST.left) (hST.place hp) (h'.imp hST.right)
  | .logical .., _, .logical op h h', hST => .logical op (h.imp hST.left) (h'.imp hST.right)
  | .read _, _, .read hr, hST => .read (hr.imp hST)
  | .assign .., _, .assign hr h, hST => .assign (hr.imp hST.right) (h.imp hST.left)
  | .call .., _, .call h hp hs, hST =>
    .call (h.imp hST.left) (hST.place hp) (Expr.allAlike_imp hs hST.right)
  | .get .., _, .get h hx, hST => .get (h.imp hST) (hx.imp hST.place)
  | .set .., _, .set h hx h', hST => .set (h.imp hST.right) (hx.imp hST.place) (h'.imp hST.left)
  | .this .., _, .this hi hp, hST => .this (hST.node List.mem_cons_self hi) (hST.place hp)
  | .super .., _, .super hi hp hx, hST =>
    .super (hST.node List.mem_cons_self hi) (hST.place hp) (hx.imp hST.place)

theorem Expr.allAlike_imp : ∀ {as bs : List Expr}, List.Forall₂ (Expr.Alike S) as bs →
    S.Within T (Expr.allNodes as) → List.Forall₂ (Expr.Alike T) as bs
  | [], _, .nil, _ => .nil
  | _ :: _, _, .cons h hs, hST => .cons (h.imp hST.left) (Expr.allAlike_imp hs hST.right)

end

mutual

theorem Stmt.Alike.imp : ∀ {a b : Stmt}, a.Alike S b → S.Within T a.nodes → a.Alike T b
  | .expression _, _, .expression h, hST => .expression (h.imp hST)
  | .print _, _, .print h, hST => .print (h.imp hST)
  | .var _ none, _, .var hx .none, hST => .var (hx.imp hST.place) .none
  | .var _ (some _), _, .var hx (.some h), hST => .var (hx.imp hST.place) (.some (h.imp hST))
  | .block _, _, .block hs, hST => .block (Stmt.allAlike_imp hs hST)
  | .ifThen .., _, .ifThen hc h, hST => .ifThen (hc.imp hST.left) (h.imp hST.right)
  | .ifElse .., _, .ifElse hc h h', hST =>
    .ifElse (hc.imp hST.left) (h.imp hST.right.left) (h'.imp hST.right.right)
  | .loop _ _ none, _, .loop hc h .none, hST => .loop (hc.imp hST.left) (h.imp hST.right) .none
  | .loop _ _ (some _), _, .loop hc h (.some h'), hST =>
    .loop (hc.imp hST.left) (h.imp hST.right.left) (.some (h'.imp hST.right.right))
  | .breakLoop _, _, .breakLoop hp, hST => .breakLoop (hST.place hp)
  | .continueLoop _, _, .continueLoop hp, hST => .continueLoop (hST.place hp)
  | .function _, _, .function h, hST => .function (h.imp hST)
  | .returnValue _ none, _, .returnValue hp .none, hST => .returnValue (hST.place hp) .none
  | .returnValue _ (some _), _, .returnValue hp (.some h), hST =>
    .returnValue (hST.place hp) (.some (h.imp hST))
  | .classDecl _ none _, _, .classDecl hx .none hs, hST =>
    .classDecl (hx.imp hST.place) .none (FunctionDecl.allAlike_imp hs hST)
  | .classDecl _ (some _) _, _, .classDecl hx (.some hr) hs, hST =>
    .classDecl (hx.imp hST.place) (.some (hr.imp hST.head))
      (FunctionDecl.allAlike_imp hs hST.tail)

theorem Stmt.allAlike_imp : ∀ {as bs : List Stmt}, List.Forall₂ (Stmt.Alike S) as bs →
    S.Within T (Stmt.allNodes as) → List.Forall₂ (Stmt.Alike T) as bs
  | [], _, .nil, _ => .nil
  | _ :: _, _, .cons h hs, hST => .cons (h.imp hST.left) (Stmt.allAlike_imp hs hST.right)

theorem FunctionDecl.Alike.imp : ∀ {f g : FunctionDecl}, f.Alike S g → S.Within T f.nodes →
    f.Alike T g
  | ⟨_, _, _, _⟩, _, .mk hi hx hps hs, hST =>
    .mk (hST.node List.mem_cons_self hi) (hx.imp hST.place) (Ident.allAlike_imp hps hST.place)
      (Stmt.allAlike_imp hs hST.tail)

theorem FunctionDecl.allAlike_imp : ∀ {fs gs : List FunctionDecl},
    List.Forall₂ (FunctionDecl.Alike S) fs gs → S.Within T (FunctionDecl.allNodes fs) →
      List.Forall₂ (FunctionDecl.Alike T) fs gs
  | [], _, .nil, _ => .nil
  | _ :: _, _, .cons h hs, hST => .cons (h.imp hST.left) (FunctionDecl.allAlike_imp hs hST.right)

end

end LoxLang
