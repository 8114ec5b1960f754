import LoxLang.Proofs.Evaluation.Outcome
import LoxLang.Proofs.Heap.Holds
import LoxLang.Session

/-!
What running code keeps of the machine, however it ends. It comes back to the scope that it was run in, and
the distances stay as they are. No scope loses a name, and of the scopes that were there before, only the
current one can gain one. If the code fails, it does so by a fault at runtime.
-/

namespace LoxLang

/-- What code keeps that runs in the current scope of the first machine. -/
structure Machine.Kept (m m' : Machine) : Prop where
  current : m'.current = m.current
  hops : m'.hops = m.hops
  size : m.heap.frames.size ≤ m'.heap.frames.size
  bound : ∀ (f : FrameId) (x : String), (m.heap.ownValue? f x).isSome → (m'.heap.ownValue? f x).isSome
  elsewhere : ∀ (f : FrameId) (x : String), f.index < m.heap.frames.size → f ≠ m.current →
    (m'.heap.ownValue? f x).isSome → (m.heap.ownValue? f x).isSome

namespace Machine.Kept

variable {m m' m'' : Machine} {h : Heap}

theorem refl (m : Machine) : m.Kept m :=
  ⟨rfl, rfl, Nat.le_refl _, fun _ _ hx => hx, fun _ _ _ _ hx => hx⟩

theorem trans (h₁ : m.Kept m') (h₂ : m'.Kept m'') : m.Kept m'' := by
  constructor
  case current => exact h₂.current.trans h₁.current
  case hops => exact h₂.hops.trans h₁.hops
  case size => exact Nat.le_trans h₁.size h₂.size
  case bound =>
    intro f x hx
    exact h₂.bound f x (h₁.bound f x hx)
  case elsewhere =>
    intro f x hf hcurrent hx
    have hf' : f.index < m'.heap.frames.size := Nat.lt_of_lt_of_le hf h₁.size
    have hcurrent' : f ≠ m'.current := by
      rw [h₁.current]
      exact hcurrent
    exact h₁.elsewhere f x hf hcurrent (h₂.elsewhere f x hf' hcurrent' hx)

/-- Nothing changes in the scopes. -/
theorem of_frames (hframes : m'.heap.frames = m.heap.frames) (hcurrent : m'.current = m.current)
    (hhops : m'.hops = m.hops) : m.Kept m' := by
  have hown : ∀ f x, m'.heap.ownValue? f x = m.heap.ownValue? f x := by
    intro f x
    rw [Heap.ownValue?, Heap.ownValue?, Heap.frame?, Heap.frame?, hframes]
  constructor
  case current => exact hcurrent
  case hops => exact hhops
  case size => exact Nat.le_of_eq (congrArg Array.size hframes).symm
  case bound =>
    intro f x hx
    rwa [hown]
  case elsewhere =>
    intro f x _ _ hx
    rwa [← hown]

theorem ownValue?_newFrame (h : Heap) (parent : Option FrameId) (bindings : Bindings Value)
    {f : FrameId} (hf : f.index < h.frames.size) (x : String) :
    (h.newFrame parent bindings).2.ownValue? f x = h.ownValue? f x := by
  rw [Heap.ownValue?, Heap.ownValue?, Heap.frame?_newFrame parent bindings hf]

theorem newFrame (m : Machine) (parent : Option FrameId) (bindings : Bindings Value) :
    m.Kept { m with heap := (m.heap.newFrame parent bindings).2 } := by
  constructor
  case current => rfl
  case hops => rfl
  case size => simp [Heap.newFrame]
  case bound =>
    intro f x hx
    rwa [ownValue?_newFrame m.heap parent bindings (Heap.lt_of_ownValue? hx)]
  case elsewhere =>
    intro f x hf _ hx
    rwa [ownValue?_newFrame m.heap parent bindings hf] at hx

/-- A name is given a value in a scope that may have it already; if it has not, the scope is the current
one. -/
theorem define (m : Machine) (f : FrameId) (name : String) (v : Value)
    (hf : f = m.current ∨ (m.heap.ownValue? f name).isSome) :
    m.Kept { m with heap := m.heap.define f name v } := by
  have hown : ∀ (g : FrameId) (x : String), g.index < m.heap.frames.size →
      (m.heap.define f name v).ownValue? g x =
        if g = f ∧ x = name then some v else m.heap.ownValue? g x := by
    intro g x hg
    by_cases hindex : f.index < m.heap.frames.size
    · exact Heap.ownValue?_define hindex
    · have hgf : g ≠ f := by
        rintro rfl
        exact hindex hg
      rw [Heap.ownValue?, Heap.frame?_define, if_neg hgf, if_neg (fun h => hgf h.1), Heap.ownValue?]
  constructor
  case current => rfl
  case hops => rfl
  case size => simp [Heap.define]
  case bound =>
    intro g x hx
    rw [hown g x (Heap.lt_of_ownValue? hx)]
    split
    · rfl
    · exact hx
  case elsewhere =>
    intro g x hg hcurrent hx
    rw [hown g x hg] at hx
    split at hx
    case isTrue hthere =>
      obtain ⟨rfl, rfl⟩ := hthere
      rcases hf with hf | hf
      · exact absurd hf hcurrent
      · exact hf
    case isFalse => exact hx

/-- What runs in a new scope gives no names to the scopes that were there. -/
theorem of_scoped (parent : Option FrameId) (bindings : Bindings Value)
    (hm : Machine.Kept { m with
      heap := (m.heap.newFrame parent bindings).2
      current := (m.heap.newFrame parent bindings).1 } m') :
    m.Kept { m' with current := m.current } := by
  have hnew := newFrame m parent bindings
  constructor
  case current => rfl
  case hops => exact hm.hops
  case size => exact Nat.le_trans hnew.size hm.size
  case bound =>
    intro f x hx
    exact hm.bound f x (hnew.bound f x hx)
  case elsewhere =>
    intro f x hf hcurrent hx
    have hfresh : f ≠ (m.heap.newFrame parent bindings).1 := by
      rintro rfl
      exact Nat.lt_irrefl _ hf
    have hold := hm.elsewhere f x (Nat.lt_of_lt_of_le hf hnew.size) hfresh hx
    exact hnew.elsewhere f x hf hcurrent hold

end Machine.Kept

/-- If the halt is a fault, it is one at runtime, and no file has been named yet. -/
def Halt.AtRuntime : Halt → Prop
  | .failed d => d.fault.isRuntime = true ∧ d.file = none
  | .exhausted => True

/-- The computation keeps what code keeps, however it ends. -/
def Exec.Keeps {α : Type} (x : Exec α) : Prop :=
  ∀ m, Ends x m (fun _ m' => m.Kept m') (fun e m' => e.AtRuntime ∧ m.Kept m')

namespace Exec

variable {α β : Type}

namespace Keeps

variable {x : Exec α} {f : α → Exec β}

theorem pure (a : α) : Keeps (Pure.pure a : Exec α) := by
  intro m
  exact Ends.pure (Machine.Kept.refl m)

theorem bind (hx : Keeps x) (hf : ∀ a, Keeps (f a)) : Keeps (x >>= f) := by
  intro m
  have hlater : ∀ a m', m.Kept m' → Ends (f a) m' (fun _ m'' => m.Kept m'')
      (fun e m'' => e.AtRuntime ∧ m.Kept m'') := by
    intro a m' hm
    apply (hf a m').imp
    · intro _ m'' hm'
      exact hm.trans hm'
    · intro e m'' hm'
      exact ⟨hm'.1, hm.trans hm'.2⟩
  exact (hx m).bind hlater

theorem get_bind {f : Machine → Exec β} (hf : ∀ m, Keeps (f m)) : Keeps (get >>= f) := by
  intro m
  exact Ends.get_bind (hf m m)

theorem fail (position : Position) (fault : RuntimeFault) : Keeps (Exec.fail position fault : Exec α) := by
  intro m
  exact Ends.throw ⟨⟨rfl, rfl⟩, Machine.Kept.refl m⟩

theorem exhausted : Keeps (Exec.exhausted : Exec α) := by
  intro m
  exact Ends.throw ⟨trivial, Machine.Kept.refl m⟩

theorem modify {u : Machine → Machine} (hu : ∀ m : Machine, m.Kept (u m)) : Keeps (modify u : Exec Unit) := by
  intro m
  exact Ends.of_modify (hu m)

theorem updateHeap {u : Heap → α × Heap}
    (hu : ∀ m : Machine, m.Kept { m with heap := (u m.heap).2 }) : Keeps (Exec.updateHeap u) := by
  intro m
  exact hu m

/-- Code that runs in a new scope. -/
theorem inside (parent : FrameId) (bindings : Bindings Value) (hx : Keeps x) :
    Keeps (newFrame parent bindings >>= fun frame => inFrame frame x) := by
  intro m
  refine .newScope ((hx _).imp ?_ ?_)
  · exact fun a m' h => Machine.Kept.of_scoped (some parent) bindings h
  · exact fun e m' h => ⟨h.1, Machine.Kept.of_scoped (some parent) bindings h.2⟩

end Keeps

/-! ### Operators, variables and properties -/

theorem unary_keeps (op : UnaryOp) (position : Position) (v : Value) : Keeps (unary op position v) := by
  unfold unary
  split
  · exact .pure _
  · exact .pure _
  · exact .fail _ _

theorem binary_keeps (op : BinaryOp) (position : Position) (left right : Value) :
    Keeps (binary op position left right) := by
  unfold binary
  split
  · exact .get_bind fun m => .pure _
  · exact .get_bind fun m => .pure _
  · exact .pure _
  · exact .pure _
  · exact .fail _ _
  · exact .pure _
  · exact .fail _ _

theorem read_keeps (reference : Reference) : Keeps (read reference) := by
  apply Keeps.get_bind
  intro m
  cases lookUp? m reference with
  | none => exact .fail _ _
  | some v => exact .pure v

/-- The scope that owns a name binds it. -/
theorem owner?_binds {h : Heap} {f g : FrameId} {x : String} (howner : h.owner? f x = some g) :
    (h.ownValue? g x).isSome := by
  unfold Heap.owner? at howner
  generalize h.frames.size = size at howner
  induction size generalizing f with
  | zero => cases howner
  | succ size ih =>
    rw [Heap.ownerWithin?] at howner
    split at howner
    case isTrue hbound => exact Option.some.inj howner ▸ hbound
    case isFalse =>
      obtain ⟨outer, _, hrest⟩ := Option.bind_eq_some_iff.mp howner
      exact ih hrest

/-- An assignment changes the value of a name where it is bound. -/
theorem reassign?_define {m : Machine} {r : Reference} {v : Value} {h : Heap}
    (hchanged : reassign? m r v = some h) :
    ∃ g, (m.heap.ownValue? g r.ident.name).isSome ∧ h = m.heap.define g r.ident.name v := by
  unfold reassign? at hchanged
  split at hchanged
  · unfold Heap.assignAt? at hchanged
    split at hchanged
    · cases hchanged
    · split at hchanged
      case isTrue hbound => exact ⟨_, hbound, (Option.some.inj hchanged).symm⟩
      case isFalse => cases hchanged
  · unfold Heap.assign? at hchanged
    split at hchanged
    · cases hchanged
    case h_2 howner => exact ⟨_, owner?_binds howner, (Option.some.inj hchanged).symm⟩

theorem assign_keeps (reference : Reference) (v : Value) : Keeps (assign reference v) := by
  intro m
  apply Ends.get_bind
  cases hchanged : reassign? m reference v with
  | none => exact Keeps.fail _ _ m
  | some heap =>
    obtain ⟨f, hbound, rfl⟩ := reassign?_define hchanged
    exact Machine.Kept.define m f _ v (.inr hbound)

theorem bindMethod_keeps (cls : ClassId) (name : Ident) (receiver : ObjectId) :
    Keeps (bindMethod cls name receiver) := by
  apply Keeps.get_bind
  intro m
  cases m.heap.method? cls name.name with
  | none => exact .fail _ _
  | some f =>
    have hbind : Keeps (updateHeap fun h => h.bind f receiver) :=
      .updateHeap fun m => Machine.Kept.newFrame m _ _
    exact hbind.bind fun _ => .pure _

theorem property_keeps (v : Value) (name : Ident) : Keeps (property v name) := by
  unfold property
  split
  case h_1 id =>
    apply Keeps.get_bind
    intro m
    cases m.heap.object? id with
    | none => exact .fail _ _
    | some o =>
      dsimp only
      cases o.fields.lookup name.name with
      | some v => exact .pure v
      | none => exact bindMethod_keeps o.cls name id
  case h_2 id =>
    cases ArrayMethod.ofName? name.name with
    | some method => exact .pure _
    | none => exact .fail _ _
  case h_3 => exact .fail _ _

theorem superMethod_keeps (id : NodeId) (position : Position) (method : Ident) :
    Keeps (superMethod id position method) := by
  apply Keeps.get_bind
  intro m
  cases m.hops.find? id with
  | none => exact .fail _ _
  | some hops =>
    dsimp only
    split
    · split
      · exact bindMethod_keeps _ _ _
      · exact .fail _ _
    · exact .fail _ _

theorem setField_keeps (id : ObjectId) (name : String) (v : Value) :
    Keeps (modify fun m => { m with heap := m.heap.setField id name v }) :=
  .modify fun _ => .of_frames rfl rfl rfl

/-! ### Calls and declarations -/

/-- Nothing is asked of functions. -/
theorem each_trivially (v : Value) : v.Each fun _ => True := by
  cases v <;> trivial

theorem holds_trivially (h : Heap) : h.Holds (fun _ => True) (fun _ => True) :=
  ⟨fun _ _ b _ => each_trivially b.2, fun _ _ _ _ => trivial, fun _ _ b _ => each_trivially b.2,
    fun _ _ v _ => each_trivially v⟩

theorem callNative_keeps (f : Native) (arguments : List Value) (paren : Position) :
    Keeps (callNative f arguments paren) := by
  intro m
  have heach : ∀ v ∈ arguments, v.Each fun _ => True := fun v _ => each_trivially v
  refine .callNative (((holds_trivially m.heap).native f heach).imp ?_ ?_)
  · rintro v m' ⟨_, _, hframes, hcurrent, hhops⟩
    exact .of_frames hframes hcurrent hhops
  · rintro fault m' ⟨_, hframes, hcurrent, hhops⟩
    exact ⟨⟨rfl, rfl⟩, .of_frames hframes hcurrent hhops⟩

theorem callArrayMethod_keeps (id : ArrayId) (method : ArrayMethod) (position : Position)
    (arguments : List Value) : Keeps (callArrayMethod id method position arguments) := by
  intro m
  unfold Ends callArrayMethod
  dsimp only [EStateM.run]
  cases hresult : method.run m.heap id arguments with
  | error fault => exact ⟨⟨rfl, rfl⟩, .refl m⟩
  | ok result =>
    obtain ⟨v, heap⟩ := result
    have heach : ∀ v ∈ arguments, v.Each fun _ => True := fun v _ => each_trivially v
    have hframes := ((holds_trivially m.heap).arrayMethod id method heach hresult).2.2
    exact .of_frames hframes rfl rfl

theorem newFrame_keeps (parent : FrameId) (bindings : Bindings Value) :
    Keeps (newFrame parent bindings) :=
  .updateHeap fun m => Machine.Kept.newFrame m _ _

theorem define_keeps (name : String) (v : Value) : Keeps (define name v) :=
  .modify fun m => Machine.Kept.define m m.current name v (.inl rfl)

theorem declareClass_keeps (name : Ident) (superclass : Option ClassId) (methods : List FunctionDecl) :
    Keeps (declareClass name superclass methods) := by
  have hmake : ∀ frame : FrameId, Keeps (do
      let cls ← updateHeap fun h => h.newClass ⟨name.name, superclass, methodBindings frame methods⟩
      define name.name (.cls cls)) := by
    intro frame
    have hclass : Keeps (updateHeap fun h =>
        h.newClass ⟨name.name, superclass, methodBindings frame methods⟩) :=
      .updateHeap fun _ => .of_frames rfl rfl rfl
    exact hclass.bind fun _ => define_keeps _ _
  apply (define_keeps _ _).bind
  intro _
  apply Keeps.get_bind
  intro m
  cases superclass with
  | none => exact hmake m.current
  | some c => exact (newFrame_keeps m.current _).bind hmake

theorem superclassOf_keeps (reference : Reference) : Keeps (superclassOf reference) := by
  apply (read_keeps reference).bind
  intro v
  cases v with
  | cls id => exact .pure id
  | _ => exact .fail _ _

end Exec

/-! ### Evaluation -/

open Exec (Keeps)

/-- Evaluation to some depth keeps what code keeps. -/
structure KeepsWithin (n : Nat) : Prop where
  evaluate : ∀ e, Keeps (evaluate n e)
  evaluateAll : ∀ es, Keeps (evaluateAll n es)
  call : ∀ callee arguments paren, Keeps (call n callee arguments paren)
  instantiate : ∀ cls arguments, Keeps (instantiate n cls arguments)
  invoke : ∀ f arguments, Keeps (invoke n f arguments)
  execute : ∀ s, Keeps (execute n s)
  loop : ∀ condition body increment, Keeps (loop n condition body increment)
  executeAll : ∀ body, Keeps (executeAll n body)

namespace KeepsWithin

variable {n : Nat}

theorem zero : KeepsWithin 0 := by
  constructor
  case evaluate => exact fun _ => .exhausted
  case evaluateAll => exact fun _ => .exhausted
  case call =>
    intro _ _ _
    unfold LoxLang.call
    exact .exhausted
  case instantiate =>
    intro _ _
    unfold LoxLang.instantiate
    exact .exhausted
  case invoke =>
    intro _ _
    unfold LoxLang.invoke
    exact .exhausted
  case execute => exact fun _ => .exhausted
  case loop =>
    intro _ _ _
    unfold LoxLang.loop
    exact .exhausted
  case executeAll => exact fun _ => .exhausted

theorem succ_evaluate (h : KeepsWithin n) (e : Expr) : Keeps (LoxLang.evaluate (n + 1) e) := by
  cases e with
  | constant value => exact .pure _
  | grouping inner => exact h.evaluate inner
  | unary op position operand => exact (h.evaluate operand).bind fun v => Exec.unary_keeps op position v
  | binary left op position right =>
    apply (h.evaluate left).bind
    intro a
    exact (h.evaluate right).bind fun b => Exec.binary_keeps op position a b
  | logical left op right =>
    apply (h.evaluate left).bind
    intro a
    split
    · exact .pure a
    · exact h.evaluate right
  | read target => exact Exec.read_keeps target
  | assign target value =>
    apply (h.evaluate value).bind
    intro v
    exact (Exec.assign_keeps target v).bind fun _ => .pure v
  | call callee paren arguments =>
    apply (h.evaluate callee).bind
    intro f
    exact (h.evaluateAll arguments).bind fun vs => h.call f vs paren
  | get object name => exact (h.evaluate object).bind fun v => Exec.property_keeps v name
  | set object name value =>
    apply (h.evaluate object).bind
    intro v
    cases v with
    | object id =>
      apply (h.evaluate value).bind
      intro v
      exact (Exec.setField_keeps id name.name v).bind fun _ => .pure v
    | _ => exact .fail _ _
  | this id position => exact Exec.read_keeps _
  | super id position method => exact Exec.superMethod_keeps id position method

theorem succ_evaluateAll (h : KeepsWithin n) (es : List Expr) :
    Keeps (LoxLang.evaluateAll (n + 1) es) := by
  cases es with
  | nil => exact .pure _
  | cons e rest =>
    apply (h.evaluate e).bind
    intro v
    exact (h.evaluateAll rest).bind fun vs => .pure _

theorem succ_call (h : KeepsWithin n) (callee : Value) (arguments : List Value) (paren : Position) :
    Keeps (LoxLang.call (n + 1) callee arguments paren) := by
  unfold LoxLang.call
  apply Keeps.get_bind
  intro m
  cases Exec.arity? m.heap callee with
  | none => exact .fail _ _
  | some arity =>
    dsimp only
    split
    · exact .fail _ _
    · cases callee with
      | native f => exact Exec.callNative_keeps f arguments paren
      | function f => exact h.invoke f arguments
      | arrayMethod id method position => exact Exec.callArrayMethod_keeps id method position arguments
      | cls id => exact h.instantiate id arguments
      | _ => exact .fail _ _

theorem succ_instantiate (h : KeepsWithin n) (cls : ClassId) (arguments : List Value) :
    Keeps (LoxLang.instantiate (n + 1) cls arguments) := by
  have hobject : Keeps (Exec.updateHeap fun h => h.newObject cls) :=
    .updateHeap fun _ => .of_frames rfl rfl rfl
  unfold LoxLang.instantiate
  apply hobject.bind
  intro object
  apply Keeps.get_bind
  intro m
  cases m.heap.method? cls initializerName with
  | none => exact .pure _
  | some f =>
    have hbind : Keeps (Exec.updateHeap fun h => h.bind f object) :=
      .updateHeap fun m => Machine.Kept.newFrame m _ _
    apply hbind.bind
    intro f
    exact (h.invoke f arguments).bind fun _ => .pure _

theorem succ_invoke (h : KeepsWithin n) (f : Closure) (arguments : List Value) :
    Keeps (LoxLang.invoke (n + 1) f arguments) := by
  have hbody := Keeps.inside f.frame (Exec.argumentBindings f.declaration.parameters arguments)
    (h.executeAll f.declaration.body)
  unfold LoxLang.invoke
  rw [← bind_assoc]
  apply hbody.bind
  intro completion
  split
  · exact .get_bind fun m => .pure _
  · cases completion <;> exact .pure _

theorem succ_execute (h : KeepsWithin n) (s : Stmt) : Keeps (LoxLang.execute (n + 1) s) := by
  cases s with
  | expression e => exact (h.evaluate e).bind fun _ => .pure _
  | print e =>
    apply (h.evaluate e).bind
    intro v
    have hprint : Keeps (modify fun m => m.print (v.text m.heap ++ "\n")) :=
      .modify fun _ => .of_frames rfl rfl rfl
    exact hprint.bind fun _ => .pure _
  | var name initializer =>
    cases initializer with
    | none => exact (Exec.define_keeps _ _).bind fun _ => .pure _
    | some e =>
      apply (h.evaluate e).bind
      intro v
      exact (Exec.define_keeps _ _).bind fun _ => .pure _
  | block body =>
    apply Keeps.get_bind
    intro m
    exact Keeps.inside m.current [] (h.executeAll body)
  | ifThen condition thenBranch =>
    apply (h.evaluate condition).bind
    intro v
    split
    · exact h.execute thenBranch
    · exact .pure _
  | ifElse condition thenBranch elseBranch =>
    apply (h.evaluate condition).bind
    intro v
    split
    · exact h.execute thenBranch
    · exact h.execute elseBranch
  | loop condition body increment => exact h.loop condition body increment
  | breakLoop position => exact .pure _
  | continueLoop position => exact .pure _
  | function declaration =>
    apply Keeps.get_bind
    intro m
    exact (Exec.define_keeps _ _).bind fun _ => .pure _
  | returnValue position value =>
    cases value with
    | none => exact .pure _
    | some e => exact (h.evaluate e).bind fun _ => .pure _
  | classDecl name superclass methods =>
    cases superclass with
    | none => exact (Exec.declareClass_keeps name none methods).bind fun _ => .pure _
    | some superclass =>
      apply (Exec.superclassOf_keeps superclass).bind
      intro c
      exact (Exec.declareClass_keeps name (some c) methods).bind fun _ => .pure _

theorem succ_loop (h : KeepsWithin n) (condition : Expr) (body : Stmt) (increment : Option Expr) :
    Keeps (LoxLang.loop (n + 1) condition body increment) := by
  unfold LoxLang.loop
  apply (h.evaluate condition).bind
  intro v
  split
  · apply (h.execute body).bind
    intro completion
    cases increment with
    | none =>
      have hagain := h.loop condition body none
      cases completion with
      | broke => exact .pure _
      | returned v => exact .pure _
      | normal => exact hagain
      | continued => exact hagain
    | some e =>
      have hagain := (h.evaluate e).bind fun _ => h.loop condition body (some e)
      cases completion with
      | broke => exact .pure _
      | returned v => exact .pure _
      | normal => exact hagain
      | continued => exact hagain
  · exact .pure _

theorem succ_executeAll (h : KeepsWithin n) (body : List Stmt) :
    Keeps (LoxLang.executeAll (n + 1) body) := by
  cases body with
  | nil => exact .pure _
  | cons s rest =>
    apply (h.execute s).bind
    intro completion
    cases completion with
    | normal => exact h.executeAll rest
    | _ => exact .pure _

end KeepsWithin

/-- Whatever is evaluated, and however deep, keeps what code keeps. -/
theorem keepsWithin (n : Nat) : KeepsWithin n := by
  induction n with
  | zero => exact .zero
  | succ n ih =>
    exact ⟨ih.succ_evaluate, ih.succ_evaluateAll, ih.succ_call, ih.succ_instantiate, ih.succ_invoke,
      ih.succ_execute, ih.succ_loop, ih.succ_executeAll⟩

theorem executeProgram_keeps (steps : Nat) (program : List Stmt) :
    Keeps (executeProgram steps program) := by
  induction program with
  | nil => exact .pure _
  | cons s rest ih => exact ((keepsWithin steps).execute s).bind fun _ => ih

end LoxLang
