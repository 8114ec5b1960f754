import LoxLang.Proofs.Outcome
import LoxLang.Scope.Resolution

/-!
Where the words stand that send control elsewhere. In a contained program, every break and continue stands in
a loop of its own function, and every return in a function. The resolver accepts no other programs.
-/

namespace LoxLang

mutual

/-- Every break, continue and return of the statement has something around it that it can leave; `function`
and `loop` tell whether a function, and a loop in it, are there around the statement. -/
def Stmt.Contained (function loop : Bool) : Stmt → Prop
  | .expression _ => True
  | .print _ => True
  | .var _ _ => True
  | .block body => Stmt.AllContained function loop body
  | .ifThen _ thenBranch => thenBranch.Contained function loop
  | .ifElse _ thenBranch elseBranch =>
    thenBranch.Contained function loop ∧ elseBranch.Contained function loop
  | .loop _ body _ => body.Contained function true
  | .breakLoop _ => loop = true
  | .continueLoop _ => loop = true
  | .function declaration => declaration.Contained
  | .returnValue _ _ => function = true
  | .classDecl _ _ methods => FunctionDecl.AllContained methods

def Stmt.AllContained (function loop : Bool) : List Stmt → Prop
  | [] => True
  | s :: rest => s.Contained function loop ∧ Stmt.AllContained function loop rest

/-- No loop around the function counts inside it. -/
def FunctionDecl.Contained : FunctionDecl → Prop
  | ⟨_, _, _, body⟩ => Stmt.AllContained true false body

def FunctionDecl.AllContained : List FunctionDecl → Prop
  | [] => True
  | m :: rest => m.Contained ∧ FunctionDecl.AllContained rest

end

theorem FunctionDecl.Contained.body {d : FunctionDecl} (h : d.Contained) :
    Stmt.AllContained true false d.body := by
  cases d
  exact h

theorem FunctionDecl.AllContained.contained {methods : List FunctionDecl}
    (h : FunctionDecl.AllContained methods) : ∀ m ∈ methods, m.Contained := by
  induction methods with
  | nil => simp
  | cons m rest ih =>
    intro m' hm'
    rcases List.mem_cons.mp hm' with rfl | hm'
    · exact h.1
    · exact ih h.2 m' hm'

namespace Resolver

/-- The walk fails if the property does not hold. -/
def Accepts (x : Resolver Unit) (P : Prop) : Prop :=
  ∀ s, Ends x s (fun _ _ => P) (fun _ _ => True)

namespace Accepts

variable {α : Type} {x : Resolver Unit} {f : Unit → Resolver Unit} {P Q : Prop}

theorem trivially (x : Resolver Unit) : Accepts x True := by
  intro s
  unfold Ends
  split <;> trivial

theorem imp (hx : Accepts x P) (h : P → Q) : Accepts x Q := by
  intro s
  exact (hx s).imp (fun _ _ hP => h hP) (fun _ _ _ => trivial)

theorem seq (hx : Accepts x P) (hf : Accepts (f ()) Q) : Accepts (x >>= f) (P ∧ Q) := by
  intro s
  apply (hx s).bind
  intro _ s' hP
  exact (hf s').imp (fun _ _ hQ => ⟨hP, hQ⟩) (fun _ _ _ => trivial)

theorem fail (position : Position) (fault : ScopeFault) : Accepts (failAt position fault) P := by
  intro s
  exact Ends.throw trivial

/-- The first part of a walk decides. -/
theorem first (hx : Accepts x P) : Accepts (x >>= f) P :=
  (hx.seq (.trivially _)).imp And.left

/-- The part behind some other one decides. -/
theorem behind (hf : ∀ u, Accepts (f u) P) : Accepts (x >>= f) P :=
  ((trivially x).seq (hf ())).imp And.right

end Accepts

theorem guard_accepts {b : Bool} (position : Position) (fault : ScopeFault) :
    Accepts (if b then return else failAt position fault) (b = true) := by
  cases b with
  | false => exact .fail _ _
  | true => exact (Accepts.trivially _).imp fun _ => rfl

/-- Code stands in a function unless it is at the top level. -/
def Context.inFunction (c : Context) : Bool :=
  decide (c.function ≠ .topLevel)

mutual

theorem statement_contained (c : Context) (s : Stmt) :
    Accepts (statement c s) (s.Contained (Context.inFunction c) c.inLoop) := by
  match s with
  | .expression e => exact .trivially _
  | .print e => exact .trivially _
  | .var name none => exact .trivially _
  | .var name (some e) => exact .trivially _
  | .block body =>
    apply Accepts.behind
    intro _
    exact (statements_contained c body).first
  | .ifThen condition thenBranch =>
    apply Accepts.behind
    intro _
    exact statement_contained c thenBranch
  | .ifElse condition thenBranch elseBranch =>
    apply Accepts.behind
    intro _
    exact (statement_contained c thenBranch).seq (statement_contained c elseBranch)
  | .loop condition body none =>
    apply Accepts.behind
    intro _
    exact statement_contained { c with inLoop := true } body
  | .loop condition body (some increment) =>
    apply Accepts.behind
    intro _
    exact (statement_contained { c with inLoop := true } body).first
  | .breakLoop position => exact guard_accepts position _
  | .continueLoop position => exact guard_accepts position _
  | .function declaration =>
    apply Accepts.behind
    intro _
    apply Accepts.behind
    intro _
    exact function_contained c .function declaration (by decide)
  | .returnValue position value =>
    unfold statement
    dsimp only
    by_cases htop : c.function = .topLevel
    · rw [if_pos htop]
      exact (Accepts.fail _ _).first
    · exact (Accepts.trivially _).imp fun _ => decide_eq_true htop
  | .classDecl name none methods =>
    iterate 4
      apply Accepts.behind
      intro _
    exact (functions_contained _ methods).first
  | .classDecl name (some superclass) methods =>
    iterate 2
      apply Accepts.behind
      intro _
    dsimp only
    split
    · exact (Accepts.fail _ _).first
    iterate 5
      apply Accepts.behind
      intro _
    exact (functions_contained _ methods).first

theorem function_contained (c : Context) (kind : FunctionContext) (d : FunctionDecl)
    (hkind : kind ≠ .topLevel) : Accepts (function c kind d) d.Contained := by
  match d with
  | ⟨_, _, names, body⟩ =>
    have hbody := statements_contained { c with function := kind, inLoop := false } body
    have hin : Context.inFunction { c with function := kind, inLoop := false } = true :=
      decide_eq_true hkind
    rw [hin] at hbody
    apply Accepts.behind
    intro _
    apply Accepts.behind
    intro _
    exact hbody.first

theorem statements_contained (c : Context) (body : List Stmt) :
    Accepts (statements c body) (Stmt.AllContained (Context.inFunction c) c.inLoop body) := by
  match body with
  | [] => exact .trivially _
  | s :: rest => exact (statement_contained c s).seq (statements_contained c rest)

theorem functions_contained (c : Context) (methods : List FunctionDecl) :
    Accepts (functions c methods) (FunctionDecl.AllContained methods) := by
  match methods with
  | [] => exact .trivially _
  | m :: rest =>
    have hkind : methodKind m.name ≠ .topLevel := by
      unfold methodKind
      split <;> decide
    exact (function_contained c (methodKind m.name) m hkind).seq (functions_contained c rest)

end

end Resolver

end LoxLang
