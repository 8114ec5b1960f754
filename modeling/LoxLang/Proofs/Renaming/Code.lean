import Mathlib.Data.List.Forall2
import LoxLang.Proofs.Syntax.WellFormed

/-!
Code in which a local variable has another name. The variable belongs to one scope of a program, and a
program can stand inside that scope, around it or apart from it. So what a name becomes depends on the scopes
around the place where it is written: each of them is marked if it is the one of the variable. A declaration
is renamed if the innermost scope is marked, a mention if the scope at its distance is; everything else keeps
its name.
-/

namespace LoxLang

/-- The variables called `old` of some scopes are called `new` instead. -/
structure Renaming where
  old : String
  new : String
  /-- The nodes in use, with the distances that have been found for them. -/
  distance : NodeId → Option Nat → Prop
  old_plain : Plain old
  new_plain : Plain new

/-- Whether each of the scopes around a place is marked, innermost first. The global scope is not among
them. -/
abbrev Marks := List Bool

namespace Marks

/-- Whether the scope at a distance is marked. -/
def reach (μ : Marks) : Option Nat → Bool
  | some hops => μ.getD hops false
  | none => false

/-- Whether the innermost scope is marked. -/
def own (μ : Marks) : Bool :=
  μ.getD 0 false

/-- The marks around the methods of a class with or without a superclass. -/
def ofClass (clause : Option Reference) (μ : Marks) : Marks :=
  if clause.isSome then false :: μ else μ

/-- None of the scopes is marked. -/
def Clear (μ : Marks) : Prop :=
  ∀ b ∈ μ, b = false

theorem Clear.reach {μ : Marks} (h : μ.Clear) (hops : Option Nat) : μ.reach hops = false := by
  cases hops with
  | none => rfl
  | some k =>
    rw [Marks.reach, List.getD_eq_getElem?_getD]
    cases hk : μ[k]? with
    | none => rfl
    | some b => exact h b (List.mem_of_getElem? hk)

theorem Clear.own {μ : Marks} (h : μ.Clear) : μ.own = false :=
  h.reach (some 0)

theorem clear_nil : Clear [] :=
  fun _ hb => by cases hb

theorem Clear.cons {μ : Marks} (h : μ.Clear) : Clear (false :: μ) := by
  intro b hb
  rcases List.mem_cons.mp hb with rfl | hb
  · rfl
  · exact h b hb

theorem Clear.ofClass {μ : Marks} (h : μ.Clear) (clause : Option Reference) : (ofClass clause μ).Clear := by
  unfold Marks.ofClass
  split
  · exact h.cons
  · exact h

end Marks

/-- Places in the same line. -/
def Position.SameLine (p q : Position) : Prop :=
  p.line = q.line

/-- The same name in the same line. -/
structure Ident.Kept (x y : Ident) : Prop where
  name : x.name = y.name
  line : x.position.SameLine y.position

namespace Renaming

variable (R : Renaming)

/-- What a name becomes in a scope, marked or not. -/
def name (marked : Bool) (x : String) : String :=
  if marked = true ∧ x = R.old then R.new else x

/-- A name that occurs where the scope is marked has to differ from the new one. -/
def Free (marked : Bool) (x : String) : Prop :=
  marked = true → x ≠ R.new

variable {R} {b : Bool} {x y : String}

theorem name_of_ne (h : x ≠ R.old) : R.name b x = x :=
  if_neg fun hx => h hx.2

@[simp]
theorem name_false : R.name false x = x :=
  if_neg fun h => by cases h.1

/-- Different names stay different. -/
theorem name_inj (hx : R.Free b x) (hy : R.Free b y) : R.name b x = R.name b y ↔ x = y := by
  unfold name
  refine ⟨fun h => ?_, fun h => by rw [h]⟩
  split at h <;> split at h <;> rename_i h₁ h₂
  · exact h₁.2.trans h₂.2.symm
  · exact absurd h.symm (hy h₁.1)
  · exact absurd h (hx h₂.1)
  · exact h

end Renaming

/-- A name that a scope binds, marked or not. -/
structure Ident.Renamed (R : Renaming) (marked : Bool) (x y : Ident) : Prop where
  name : y.name = R.name marked x.name
  free : R.Free marked x.name
  line : x.position.SameLine y.position

/-- A mention: its name is that of the scope at its distance. -/
structure Reference.Renamed (R : Renaming) (μ : Marks) (r r' : Reference) : Prop where
  id : r.id = r'.id
  ident : ∃ hops, R.distance r.id hops ∧ r.ident.Renamed R (μ.reach hops) r'.ident

inductive Expr.Renamed (R : Renaming) (μ : Marks) : Expr → Expr → Prop where
  | constant (value : Constant) : Renamed R μ (.constant value) (.constant value)
  | grouping {a b : Expr} : Renamed R μ a b → Renamed R μ (.grouping a) (.grouping b)
  | unary (op : UnaryOp) {p q : Position} {a b : Expr} :
    p.SameLine q → Renamed R μ a b → Renamed R μ (.unary op p a) (.unary op q b)
  | binary {a a' b b' : Expr} (op : BinaryOp) {p q : Position} :
    Renamed R μ a a' → p.SameLine q → Renamed R μ b b' →
      Renamed R μ (.binary a op p b) (.binary a' op q b')
  | logical {a a' b b' : Expr} (op : LogicalOp) :
    Renamed R μ a a' → Renamed R μ b b' → Renamed R μ (.logical a op b) (.logical a' op b')
  | read {r r' : Reference} : r.Renamed R μ r' → Renamed R μ (.read r) (.read r')
  | assign {r r' : Reference} {a b : Expr} :
    r.Renamed R μ r' → Renamed R μ a b → Renamed R μ (.assign r a) (.assign r' b)
  | call {f g : Expr} {p q : Position} {as bs : List Expr} :
    Renamed R μ f g → p.SameLine q → List.Forall₂ (Renamed R μ) as bs →
      Renamed R μ (.call f p as) (.call g q bs)
  | get {a b : Expr} {x y : Ident} : Renamed R μ a b → x.Kept y → Renamed R μ (.get a x) (.get b y)
  | set {a a' b b' : Expr} {x y : Ident} :
    Renamed R μ a a' → x.Kept y → Renamed R μ b b' → Renamed R μ (.set a x b) (.set a' y b')
  | this {i : NodeId} {p q : Position} {hops : Option Nat} :
    R.distance i hops → p.SameLine q → Renamed R μ (.this i p) (.this i q)
  | super {i : NodeId} {p q : Position} {x y : Ident} {hops : Option Nat} :
    R.distance i hops → p.SameLine q → x.Kept y → Renamed R μ (.super i p x) (.super i q y)

mutual

inductive Stmt.Renamed (R : Renaming) : Marks → Stmt → Stmt → Prop where
  | expression {μ : Marks} {a b : Expr} :
    a.Renamed R μ b → Stmt.Renamed R μ (.expression a) (.expression b)
  | print {μ : Marks} {a b : Expr} : a.Renamed R μ b → Stmt.Renamed R μ (.print a) (.print b)
  | var {μ : Marks} {x y : Ident} {a b : Option Expr} :
    x.Renamed R μ.own y → Option.Rel (Expr.Renamed R μ) a b → Stmt.Renamed R μ (.var x a) (.var y b)
  | block {μ : Marks} {as bs : List Stmt} (marked : Bool) :
    Stmt.AllRenamed R (marked :: μ) as bs → Stmt.Renamed R μ (.block as) (.block bs)
  | ifThen {μ : Marks} {c d : Expr} {a b : Stmt} :
    c.Renamed R μ d → Stmt.Renamed R μ a b → Stmt.Renamed R μ (.ifThen c a) (.ifThen d b)
  | ifElse {μ : Marks} {c d : Expr} {a a' b b' : Stmt} :
    c.Renamed R μ d → Stmt.Renamed R μ a a' → Stmt.Renamed R μ b b' →
      Stmt.Renamed R μ (.ifElse c a b) (.ifElse d a' b')
  | loop {μ : Marks} {c d : Expr} {a b : Stmt} {i j : Option Expr} :
    c.Renamed R μ d → Stmt.Renamed R μ a b → Option.Rel (Expr.Renamed R μ) i j →
      Stmt.Renamed R μ (.loop c a i) (.loop d b j)
  | breakLoop {μ : Marks} {p q : Position} : p.SameLine q → Stmt.Renamed R μ (.breakLoop p) (.breakLoop q)
  | continueLoop {μ : Marks} {p q : Position} :
    p.SameLine q → Stmt.Renamed R μ (.continueLoop p) (.continueLoop q)
  | function {μ : Marks} {f g : FunctionDecl} :
    FunctionDecl.Renamed R μ f g → f.name.Renamed R μ.own g.name →
      Stmt.Renamed R μ (.function f) (.function g)
  | returnValue {μ : Marks} {p q : Position} {a b : Option Expr} :
    p.SameLine q → Option.Rel (Expr.Renamed R μ) a b →
      Stmt.Renamed R μ (.returnValue p a) (.returnValue q b)
  | classDecl {μ : Marks} {x y : Ident} {c d : Option Reference} {ms ns : List FunctionDecl} :
    x.Kept y → x.Renamed R μ.own y → Option.Rel (Reference.Renamed R μ) c d →
      FunctionDecl.AllRenamed R (false :: Marks.ofClass c μ) ms ns →
        Stmt.Renamed R μ (.classDecl x c ms) (.classDecl y d ns)

inductive Stmt.AllRenamed (R : Renaming) : Marks → List Stmt → List Stmt → Prop where
  | nil {μ : Marks} : Stmt.AllRenamed R μ [] []
  | cons {μ : Marks} {a b : Stmt} {as bs : List Stmt} :
    Stmt.Renamed R μ a b → Stmt.AllRenamed R μ as bs → Stmt.AllRenamed R μ (a :: as) (b :: bs)

/-- A function or method with the marks of the scopes around it. The text of a function shows its name, which
is kept. -/
inductive FunctionDecl.Renamed (R : Renaming) : Marks → FunctionDecl → FunctionDecl → Prop where
  | mk {μ : Marks} {i : NodeId} {x y : Ident} {ps qs : List Ident} {as bs : List Stmt} (marked : Bool) :
    x.Kept y → List.Forall₂ (Ident.Renamed R marked) ps qs →
      Stmt.AllRenamed R (marked :: μ) as bs →
        FunctionDecl.Renamed R μ ⟨i, x, ps, as⟩ ⟨i, y, qs, bs⟩

inductive FunctionDecl.AllRenamed (R : Renaming) : Marks → List FunctionDecl → List FunctionDecl → Prop where
  | nil {μ : Marks} : FunctionDecl.AllRenamed R μ [] []
  | cons {μ : Marks} {f g : FunctionDecl} {fs gs : List FunctionDecl} :
    FunctionDecl.Renamed R μ f g → FunctionDecl.AllRenamed R μ fs gs →
      FunctionDecl.AllRenamed R μ (f :: fs) (g :: gs)

end

namespace FunctionDecl.Renamed

variable {R : Renaming} {μ : Marks} {f g : FunctionDecl}

theorem id (h : FunctionDecl.Renamed R μ f g) : f.id = g.id := by
  cases h
  rfl

theorem name (h : FunctionDecl.Renamed R μ f g) : f.name.Kept g.name := by
  obtain ⟨_, hname, _, _⟩ := h
  exact hname

/-- The parameters and the body share one scope. -/
theorem scope (h : FunctionDecl.Renamed R μ f g) : ∃ marked,
    List.Forall₂ (Ident.Renamed R marked) f.parameters g.parameters ∧
      Stmt.AllRenamed R (marked :: μ) f.body g.body := by
  obtain ⟨marked, _, hparameters, hbody⟩ := h
  exact ⟨marked, hparameters, hbody⟩

end FunctionDecl.Renamed

/-! ### Further nodes -/

/-- The same renaming, with further nodes in use. -/
structure Renaming.Within (R R' : Renaming) : Prop where
  old : R'.old = R.old
  new : R'.new = R.new
  distance : ∀ {i hops}, R.distance i hops → R'.distance i hops

section Within

variable {R R' : Renaming} {μ : Marks} {b : Bool}

theorem Renaming.Within.name (h : R.Within R') (x : String) : R'.name b x = R.name b x := by
  unfold Renaming.name
  rw [h.old, h.new]

theorem Renaming.Within.free (h : R.Within R') {x : String} (hx : R.Free b x) : R'.Free b x := by
  unfold Renaming.Free
  rw [h.new]
  exact hx

theorem Ident.Renamed.within (hR : R.Within R') {x y : Ident} (h : x.Renamed R b y) : x.Renamed R' b y :=
  ⟨h.name.trans (hR.name _).symm, hR.free h.free, h.line⟩

theorem Reference.Renamed.within (hR : R.Within R') {r r' : Reference} (h : r.Renamed R μ r') :
    r.Renamed R' μ r' := by
  obtain ⟨hops, hdistance, hident⟩ := h.ident
  exact ⟨h.id, hops, hR.distance hdistance, hident.within hR⟩

mutual

theorem Expr.Renamed.within (hR : R.Within R') : ∀ {a b : Expr}, a.Renamed R μ b → a.Renamed R' μ b
  | .constant _, _, .constant value => .constant value
  | .grouping _, _, .grouping h => .grouping (h.within hR)
  | .unary .., _, .unary op hp h => .unary op hp (h.within hR)
  | .binary .., _, .binary op h hp h' => .binary op (h.within hR) hp (h'.within hR)
  | .logical .., _, .logical op h h' => .logical op (h.within hR) (h'.within hR)
  | .read _, _, .read hr => .read (hr.within hR)
  | .assign .., _, .assign hr h => .assign (hr.within hR) (h.within hR)
  | .call .., _, .call h hp hs => .call (h.within hR) hp (Expr.allRenamed_within hR hs)
  | .get .., _, .get h hx => .get (h.within hR) hx
  | .set .., _, .set h hx h' => .set (h.within hR) hx (h'.within hR)
  | .this .., _, .this hi hp => .this (hR.distance hi) hp
  | .super .., _, .super hi hp hx => .super (hR.distance hi) hp hx

theorem Expr.allRenamed_within (hR : R.Within R') : ∀ {as bs : List Expr},
    List.Forall₂ (Expr.Renamed R μ) as bs → List.Forall₂ (Expr.Renamed R' μ) as bs
  | [], _, .nil => .nil
  | _ :: _, _, .cons h hs => .cons (h.within hR) (Expr.allRenamed_within hR hs)

end

theorem Expr.optionRenamed_within (hR : R.Within R') {a b : Option Expr}
    (h : Option.Rel (Expr.Renamed R μ) a b) : Option.Rel (Expr.Renamed R' μ) a b := by
  cases h with
  | none => exact .none
  | some h => exact .some (h.within hR)

mutual

theorem Stmt.Renamed.within (hR : R.Within R') : ∀ {μ : Marks} {a b : Stmt},
    Stmt.Renamed R μ a b → Stmt.Renamed R' μ a b
  | _, .expression _, _, .expression h => .expression (h.within hR)
  | _, .print _, _, .print h => .print (h.within hR)
  | _, .var .., _, .var hx h => .var (hx.within hR) (Expr.optionRenamed_within hR h)
  | _, .block _, _, .block marked hs => .block marked (Stmt.allRenamed_within hR hs)
  | _, .ifThen .., _, .ifThen hc h => .ifThen (hc.within hR) (h.within hR)
  | _, .ifElse .., _, .ifElse hc h h' => .ifElse (hc.within hR) (h.within hR) (h'.within hR)
  | _, .loop .., _, .loop hc h hi => .loop (hc.within hR) (h.within hR) (Expr.optionRenamed_within hR hi)
  | _, .breakLoop _, _, .breakLoop hp => .breakLoop hp
  | _, .continueLoop _, _, .continueLoop hp => .continueLoop hp
  | _, .function _, _, .function h hx => .function (h.within hR) (hx.within hR)
  | _, .returnValue .., _, .returnValue hp h => .returnValue hp (Expr.optionRenamed_within hR h)
  | _, .classDecl _ none _, _, .classDecl hx hx' .none hs =>
    .classDecl hx (hx'.within hR) .none (FunctionDecl.allRenamed_within hR hs)
  | _, .classDecl _ (some _) _, _, .classDecl hx hx' (.some hr) hs =>
    .classDecl hx (hx'.within hR) (.some (hr.within hR)) (FunctionDecl.allRenamed_within hR hs)

theorem Stmt.allRenamed_within (hR : R.Within R') : ∀ {μ : Marks} {as bs : List Stmt},
    Stmt.AllRenamed R μ as bs → Stmt.AllRenamed R' μ as bs
  | _, [], _, .nil => .nil
  | _, _ :: _, _, .cons h hs => .cons (h.within hR) (Stmt.allRenamed_within hR hs)

theorem FunctionDecl.Renamed.within (hR : R.Within R') : ∀ {μ : Marks} {f g : FunctionDecl},
    FunctionDecl.Renamed R μ f g → FunctionDecl.Renamed R' μ f g
  | _, ⟨_, _, _, _⟩, _, .mk marked hx hps hs =>
    .mk marked hx (hps.imp fun _ _ h => h.within hR) (Stmt.allRenamed_within hR hs)

theorem FunctionDecl.allRenamed_within (hR : R.Within R') : ∀ {μ : Marks} {fs gs : List FunctionDecl},
    FunctionDecl.AllRenamed R μ fs gs → FunctionDecl.AllRenamed R' μ fs gs
  | _, [], _, .nil => .nil
  | _, _ :: _, _, .cons h hs => .cons (h.within hR) (FunctionDecl.allRenamed_within hR hs)

end

end Within

/-! ### Code apart from the variable -/

/-- The nodes are in use. -/
def Renaming.Uses (R : Renaming) (ids : List NodeId) : Prop :=
  ∀ id ∈ ids, ∃ hops, R.distance id hops

namespace Renaming.Uses

variable {R : Renaming} {i : NodeId} {a b : List NodeId}

theorem left (h : R.Uses (a ++ b)) : R.Uses a :=
  fun id hid => h id (List.mem_append_left b hid)

theorem right (h : R.Uses (a ++ b)) : R.Uses b :=
  fun id hid => h id (List.mem_append_right a hid)

theorem head (h : R.Uses (i :: a)) : ∃ hops, R.distance i hops :=
  h i List.mem_cons_self

theorem tail (h : R.Uses (i :: a)) : R.Uses a :=
  fun id hid => h id (List.mem_cons_of_mem i hid)

end Renaming.Uses

section Apart

variable {R : Renaming} {μ : Marks}

theorem Ident.kept_self (x : Ident) : x.Kept x :=
  ⟨rfl, rfl⟩

theorem Ident.renamed_self (x : Ident) (hμ : μ.Clear) : x.Renamed R μ.own x := by
  rw [hμ.own]
  exact ⟨Renaming.name_false.symm, nofun, rfl⟩

theorem Reference.renamed_self (hμ : μ.Clear) {r : Reference} (hr : ∃ hops, R.distance r.id hops) :
    r.Renamed R μ r := by
  obtain ⟨hops, hdistance⟩ := hr
  refine ⟨rfl, hops, hdistance, ?_⟩
  rw [hμ.reach, ← hμ.own]
  exact r.ident.renamed_self hμ

mutual

theorem Expr.renamed_self (hμ : μ.Clear) : ∀ {e : Expr}, R.Uses e.nodes → e.Renamed R μ e
  | .constant value, _ => .constant value
  | .grouping _, he => .grouping (Expr.renamed_self hμ he)
  | .unary op _ _, he => .unary op rfl (Expr.renamed_self hμ he)
  | .binary _ op _ _, he => .binary op (Expr.renamed_self hμ he.left) rfl (Expr.renamed_self hμ he.right)
  | .logical _ op _, he => .logical op (Expr.renamed_self hμ he.left) (Expr.renamed_self hμ he.right)
  | .read _, he => .read (Reference.renamed_self hμ he.head)
  | .assign _ _, he => .assign (Reference.renamed_self hμ he.right.head) (Expr.renamed_self hμ he.left)
  | .call .., he => .call (Expr.renamed_self hμ he.left) rfl (Expr.allRenamed_self hμ he.right)
  | .get _ x, he => .get (Expr.renamed_self hμ he) x.kept_self
  | .set _ x _, he => .set (Expr.renamed_self hμ he.right) x.kept_self (Expr.renamed_self hμ he.left)
  | .this _ _, he => .this he.head.choose_spec rfl
  | .super _ _ x, he => .super he.head.choose_spec rfl x.kept_self

theorem Expr.allRenamed_self (hμ : μ.Clear) : ∀ {es : List Expr}, R.Uses (Expr.allNodes es) →
    List.Forall₂ (Expr.Renamed R μ) es es
  | [], _ => .nil
  | _ :: _, he => .cons (Expr.renamed_self hμ he.left) (Expr.allRenamed_self hμ he.right)

end

mutual

/-- Where no scope is marked, code stays as it is. -/
theorem Stmt.renamed_self : ∀ {μ : Marks} {s : Stmt}, μ.Clear → R.Uses s.nodes → Stmt.Renamed R μ s s
  | _, .expression _, hμ, hs => .expression (Expr.renamed_self hμ hs)
  | _, .print _, hμ, hs => .print (Expr.renamed_self hμ hs)
  | _, .var x none, hμ, _ => .var (x.renamed_self hμ) .none
  | _, .var x (some _), hμ, hs => .var (x.renamed_self hμ) (.some (Expr.renamed_self hμ hs))
  | _, .block _, hμ, hs => .block false (Stmt.allRenamed_self hμ.cons hs)
  | _, .ifThen .., hμ, hs => .ifThen (Expr.renamed_self hμ hs.left) (Stmt.renamed_self hμ hs.right)
  | _, .ifElse .., hμ, hs =>
    .ifElse (Expr.renamed_self hμ hs.left) (Stmt.renamed_self hμ hs.right.left)
      (Stmt.renamed_self hμ hs.right.right)
  | _, .loop _ _ none, hμ, hs =>
    .loop (Expr.renamed_self hμ hs.left) (Stmt.renamed_self hμ hs.right) .none
  | _, .loop _ _ (some _), hμ, hs =>
    .loop (Expr.renamed_self hμ hs.left) (Stmt.renamed_self hμ hs.right.left)
      (.some (Expr.renamed_self hμ hs.right.right))
  | _, .breakLoop _, _, _ => .breakLoop rfl
  | _, .continueLoop _, _, _ => .continueLoop rfl
  | _, .function d, hμ, hs => .function (FunctionDecl.renamed_self hμ hs) (d.name.renamed_self hμ)
  | _, .returnValue _ none, _, _ => .returnValue rfl .none
  | _, .returnValue _ (some _), hμ, hs => .returnValue rfl (.some (Expr.renamed_self hμ hs))
  | _, .classDecl x none _, hμ, hs =>
    .classDecl x.kept_self (x.renamed_self hμ) .none (FunctionDecl.allRenamed_self hμ.cons hs)
  | _, .classDecl x (some _) _, hμ, hs =>
    .classDecl x.kept_self (x.renamed_self hμ) (.some (Reference.renamed_self hμ hs.head))
      (FunctionDecl.allRenamed_self hμ.cons.cons hs.tail)

theorem Stmt.allRenamed_self : ∀ {μ : Marks} {body : List Stmt}, μ.Clear → R.Uses (Stmt.allNodes body) →
    Stmt.AllRenamed R μ body body
  | _, [], _, _ => .nil
  | _, _ :: _, hμ, hs => .cons (Stmt.renamed_self hμ hs.left) (Stmt.allRenamed_self hμ hs.right)

theorem FunctionDecl.renamed_self : ∀ {μ : Marks} {f : FunctionDecl}, μ.Clear → R.Uses f.nodes →
    FunctionDecl.Renamed R μ f f
  | _, ⟨_, x, _, _⟩, hμ, hs =>
    .mk false x.kept_self
      (List.forall₂_same.mpr fun p _ => show p.Renamed R (Marks.own [false]) p from
        p.renamed_self Marks.clear_nil.cons)
      (Stmt.allRenamed_self hμ.cons hs.tail)

theorem FunctionDecl.allRenamed_self : ∀ {μ : Marks} {fs : List FunctionDecl}, μ.Clear →
    R.Uses (FunctionDecl.allNodes fs) → FunctionDecl.AllRenamed R μ fs fs
  | _, [], _, _ => .nil
  | _, _ :: _, hμ, hs =>
    .cons (FunctionDecl.renamed_self hμ hs.left) (FunctionDecl.allRenamed_self hμ hs.right)

end

end Apart

end LoxLang
