import LoxLang.Proofs.Evaluation.Outcome
import LoxLang.Proofs.Heap.Holds

/-!
Where functions come from. What the primitive steps of evaluation do to a machine makes no functions whose
declarations are not there already, and so a property of all declarations is kept by them.
-/

namespace LoxLang

/-- If the value is a function, its declaration is as `D` says. -/
def Value.Declared (D : FunctionDecl → Prop) (v : Value) : Prop :=
  v.Each fun f => D f.declaration

/-- All functions and methods in the machine have declarations as `D` says. -/
def Machine.Declared (D : FunctionDecl → Prop) (m : Machine) : Prop :=
  m.heap.Holds (fun f => D f.declaration) (fun f => D f.declaration)

/-- The computation makes no functions but those with declarations as `D` says, and yields values that are
as `good` says. -/
def Exec.KeepsDeclared {α : Type} (D : FunctionDecl → Prop) (x : Exec α) (good : α → Prop) : Prop :=
  ∀ m, m.Declared D → Ends x m (fun a m' => good a ∧ m'.Declared D) (fun _ m' => m'.Declared D)

namespace Exec

variable {α β : Type} {D : FunctionDecl → Prop} {x : Exec α} {f : α → Exec β} {good : α → Prop}
  {good' : β → Prop} {v : Value}

namespace KeepsDeclared

theorem pure {a : α} (ha : good a) : KeepsDeclared D (Pure.pure a : Exec α) good := by
  intro m hm
  exact Ends.pure ⟨ha, hm⟩

theorem bind (hx : KeepsDeclared D x good) (hf : ∀ a, good a → KeepsDeclared D (f a) good') :
    KeepsDeclared D (x >>= f) good' := by
  intro m hm
  apply (hx m hm).bind
  intro a m' ha
  exact hf a ha.1 m' ha.2

theorem get_bind {f : Machine → Exec β} (hf : ∀ m, m.Declared D → KeepsDeclared D (f m) good') :
    KeepsDeclared D (get >>= f) good' := by
  intro m hm
  exact Ends.get_bind (hf m hm m hm)

theorem fail (position : Position) (fault : RuntimeFault) :
    KeepsDeclared D (Exec.fail position fault : Exec α) good := by
  intro m hm
  exact Ends.throw hm

theorem modify {u : Machine → Machine} (hu : ∀ m, m.Declared D → (u m).Declared D) :
    KeepsDeclared D (modify u : Exec Unit) fun _ => True := by
  intro m hm
  exact Ends.of_modify ⟨trivial, hu m hm⟩

theorem updateHeap {u : Heap → α × Heap} (hu : ∀ m : Machine, m.Declared D →
    good (u m.heap).1 ∧ ({ m with heap := (u m.heap).2 } : Machine).Declared D) :
    KeepsDeclared D (Exec.updateHeap u) good := by
  intro m hm
  exact hu m hm

end KeepsDeclared

/-! ### Operators, variables and properties -/

theorem unary_keepsDeclared (op : UnaryOp) (position : Position) (v : Value) :
    KeepsDeclared D (unary op position v) (Value.Declared D) := by
  unfold unary
  split
  · exact .pure trivial
  · exact .pure trivial
  · exact .fail _ _

theorem binary_keepsDeclared (op : BinaryOp) (position : Position) (left right : Value) :
    KeepsDeclared D (binary op position left right) (Value.Declared D) := by
  unfold binary
  split
  · exact .get_bind fun _ _ => .pure trivial
  · exact .get_bind fun _ _ => .pure trivial
  · exact .pure trivial
  · exact .pure trivial
  · exact .fail _ _
  · exact .pure trivial
  · exact .fail _ _

theorem lookUp?_declared {m : Machine} (hm : m.Declared D) {r : Reference} (hv : lookUp? m r = some v) :
    v.Declared D := by
  unfold lookUp? at hv
  split at hv
  · exact hm.getAt? hv
  · exact hm.get? hv

theorem read_keepsDeclared (r : Reference) : KeepsDeclared D (read r) (Value.Declared D) := by
  apply KeepsDeclared.get_bind
  intro m hm
  cases hv : lookUp? m r with
  | none => exact .fail _ _
  | some v => exact .pure (lookUp?_declared hm hv)

theorem reassign?_declared {m : Machine} (hm : m.Declared D) {r : Reference} (hv : v.Declared D)
    {h : Heap} (hchanged : reassign? m r v = some h) : ({ m with heap := h } : Machine).Declared D := by
  unfold reassign? Heap.assignAt? Heap.assign? at hchanged
  split at hchanged <;> split at hchanged
  · cases hchanged
  · split at hchanged
    · cases hchanged
      exact Heap.Holds.define hm _ _ hv
    · cases hchanged
  · cases hchanged
  · cases hchanged
    exact Heap.Holds.define hm _ _ hv

theorem assign_keepsDeclared (r : Reference) (hv : v.Declared D) :
    KeepsDeclared D (assign r v) fun _ => True := by
  intro m hm
  apply Ends.get_bind
  cases hchanged : reassign? m r v with
  | none => exact KeepsDeclared.fail _ _ m hm
  | some h => exact ⟨trivial, reassign?_declared hm hv hchanged⟩

/-- A method with its receiver is declared where the method is. -/
theorem bind_keepsDeclared {m : Closure} (hm : D m.declaration) (receiver : ObjectId) :
    KeepsDeclared D (updateHeap fun h => h.bind m receiver) fun f => D f.declaration := by
  apply KeepsDeclared.updateHeap
  intro n hn
  refine ⟨hm, Heap.Holds.newFrame hn _ ?_⟩
  intro b hb
  obtain rfl := List.mem_singleton.mp hb
  trivial

theorem bindMethod_keepsDeclared (cls : ClassId) (name : Ident) (receiver : ObjectId) :
    KeepsDeclared D (bindMethod cls name receiver) (Value.Declared D) := by
  apply KeepsDeclared.get_bind
  intro m hm
  cases hmethod : m.heap.method? cls name.name with
  | none => exact .fail _ _
  | some f =>
    apply (bind_keepsDeclared (hm.method? hmethod) receiver).bind
    intro g hg
    exact .pure hg

theorem property_keepsDeclared (v : Value) (name : Ident) :
    KeepsDeclared D (property v name) (Value.Declared D) := by
  unfold property
  split
  case h_1 id =>
    apply KeepsDeclared.get_bind
    intro m hm
    cases ho : m.heap.object? id with
    | none => exact .fail _ _
    | some o =>
      dsimp only
      cases hv : o.fields.lookup name.name with
      | some v => exact .pure (hm.field ho hv)
      | none => exact bindMethod_keepsDeclared o.cls name id
  case h_2 id =>
    cases ArrayMethod.ofName? name.name with
    | some method => exact .pure trivial
    | none => exact .fail _ _
  case h_3 => exact .fail _ _

theorem superMethod_keepsDeclared (id : NodeId) (position : Position) (method : Ident) :
    KeepsDeclared D (superMethod id position method) (Value.Declared D) := by
  apply KeepsDeclared.get_bind
  intro m _
  cases m.hops.find? id with
  | none => exact .fail _ _
  | some hops =>
    dsimp only
    split
    · split
      · exact bindMethod_keepsDeclared _ _ _
      · exact .fail _ _
    · exact .fail _ _

theorem setField_keepsDeclared (id : ObjectId) (name : String) (hv : v.Declared D) :
    KeepsDeclared D (modify fun m => { m with heap := m.heap.setField id name v }) fun _ => True := by
  apply KeepsDeclared.modify
  intro m hm
  exact Heap.Holds.setField hm id name hv

/-! ### Calls and declarations -/

theorem callNative_keepsDeclared (f : Native) {arguments : List Value}
    (harguments : ∀ v ∈ arguments, v.Declared D) (paren : Position) :
    KeepsDeclared D (callNative f arguments paren) (Value.Declared D) := by
  intro m hm
  refine .callNative ((Heap.Holds.native hm f harguments).imp ?_ ?_)
  · exact fun v m' h => ⟨h.1, h.2.1⟩
  · exact fun fault m' h => h.1

theorem callArrayMethod_keepsDeclared (id : ArrayId) (method : ArrayMethod) (position : Position)
    {arguments : List Value} (harguments : ∀ v ∈ arguments, v.Declared D) :
    KeepsDeclared D (callArrayMethod id method position arguments) (Value.Declared D) := by
  intro m hm
  unfold Ends callArrayMethod
  dsimp only [EStateM.run]
  cases hresult : method.run m.heap id arguments with
  | error fault => exact hm
  | ok result =>
    obtain ⟨v, heap⟩ := result
    have hrun := Heap.Holds.arrayMethod hm id method harguments hresult
    exact ⟨hrun.1, hrun.2.1⟩

theorem newFrame_keepsDeclared (parent : FrameId) {bindings : Bindings Value}
    (hbindings : ∀ b ∈ bindings, b.2.Declared D) :
    KeepsDeclared D (newFrame parent bindings) fun _ => True := by
  apply KeepsDeclared.updateHeap
  intro m hm
  exact ⟨trivial, Heap.Holds.newFrame hm _ hbindings⟩

theorem newObject_keepsDeclared (cls : ClassId) :
    KeepsDeclared D (updateHeap fun h => h.newObject cls) fun _ => True := by
  apply KeepsDeclared.updateHeap
  intro m hm
  exact ⟨trivial, Heap.Holds.newObject hm cls⟩

theorem define_keepsDeclared (name : String) (hv : v.Declared D) :
    KeepsDeclared D (define name v) fun _ => True := by
  apply KeepsDeclared.modify
  intro m hm
  exact Heap.Holds.define hm _ name hv

theorem declareClass_keepsDeclared (name : Ident) (superclass : Option ClassId) {methods : List FunctionDecl}
    (hmethods : ∀ m ∈ methods, D m) :
    KeepsDeclared D (declareClass name superclass methods) fun _ => True := by
  have hmake : ∀ frame : FrameId, KeepsDeclared D (do
      let cls ← updateHeap fun h => h.newClass ⟨name.name, superclass, methodBindings frame methods⟩
      define name.name (.cls cls)) fun _ => True := by
    intro frame
    have hclass : KeepsDeclared D (updateHeap fun h =>
        h.newClass ⟨name.name, superclass, methodBindings frame methods⟩) fun _ => True := by
      apply KeepsDeclared.updateHeap
      intro m hm
      refine ⟨trivial, Heap.Holds.newClass hm ?_⟩
      exact methodBindings_each (M := fun f => D f.declaration) fun f hf _ => hmethods f hf
    exact hclass.bind fun cls _ => define_keepsDeclared (v := .cls cls) name.name trivial
  apply (define_keepsDeclared (v := .nil) name.name trivial).bind
  intro _ _
  apply KeepsDeclared.get_bind
  intro m _
  cases superclass with
  | none => exact hmake m.current
  | some c =>
    apply (newFrame_keepsDeclared m.current _).bind
    · intro frame _
      exact hmake frame
    · intro b hb
      obtain rfl := List.mem_singleton.mp hb
      trivial

theorem superclassOf_keepsDeclared (r : Reference) : KeepsDeclared D (superclassOf r) fun _ => True := by
  apply (read_keepsDeclared r).bind
  intro v _
  cases v with
  | cls id => exact .pure trivial
  | _ => exact .fail _ _

end Exec

end LoxLang
