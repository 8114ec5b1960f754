import LoxLang.Evaluator
import LoxLang.Proofs.Heap.Scopes
import LoxLang.Proofs.Native.Parametric
import LoxLang.Proofs.Value.ArrayMethod

/-!
What holds of all closures in a heap: of the functions among its values, and of the methods of its classes.
Native functions and methods of arrays make no closures, so what holds before they are called holds behind
them too.
-/

namespace LoxLang

/-- If the value is a function, it is as `F` says. -/
def Value.Each (F : Closure → Prop) : Value → Prop
  | .function f => F f
  | _ => True

theorem Value.Each.mono {F F' : Closure → Prop} {v : Value} (hv : v.Each F) (h : ∀ f, F f → F' f) :
    v.Each F' := by
  cases v with
  | function f => exact h f hv
  | _ => trivial

theorem Value.Each.ofConstant {F : Closure → Prop} (c : Constant) : (Value.ofConstant c).Each F := by
  cases c <;> trivial

namespace Heap

/-- The functions in the heap are as `F` says, and the methods of its classes as `M` says. -/
structure Holds (F M : Closure → Prop) (h : Heap) : Prop where
  frames : ∀ f ∈ h.frames, ∀ b ∈ f.bindings, b.2.Each F
  classes : ∀ c ∈ h.classes, ∀ b ∈ c.methods, M b.2
  objects : ∀ o ∈ h.objects, ∀ b ∈ o.fields, b.2.Each F
  arrays : ∀ a ∈ h.arrays, ∀ v ∈ a, v.Each F

namespace Holds

variable {F M F' M' : Closure → Prop} {h : Heap} {v : Value} {name : String}

theorem mono (hh : h.Holds F M) (hF : ∀ f, F f → F' f) (hM : ∀ m, M m → M' m) : h.Holds F' M' :=
  ⟨fun f hf b hb => (hh.frames f hf b hb).mono hF, fun c hc b hb => hM _ (hh.classes c hc b hb),
    fun o ho b hb => (hh.objects o ho b hb).mono hF, fun a ha v hv => (hh.arrays a ha v hv).mono hF⟩

/-- In the first heap of a session there are no functions of programs. -/
theorem initial : Machine.initialHeap.Holds F M := by
  refine ⟨fun f hf b hb => ?_, ?_, ?_, ?_⟩
  · obtain rfl : f = ⟨Native.all.map fun f => (f.name, .native f), none⟩ := by
      simpa [Machine.initialHeap, Heap.newFrame, Heap.empty] using hf
    obtain ⟨native, _, rfl⟩ := List.mem_map.mp hb
    trivial
  · simp [Machine.initialHeap, Heap.newFrame, Heap.empty]
  · simp [Machine.initialHeap, Heap.newFrame, Heap.empty]
  · simp [Machine.initialHeap, Heap.newFrame, Heap.empty]

/-! ### Looking things up -/

theorem ownValue? (hh : h.Holds F M) {f : FrameId} (hv : h.ownValue? f name = some v) : v.Each F := by
  rw [Heap.ownValue?, Heap.frame?, Option.bind_eq_some_iff] at hv
  obtain ⟨frame, hframe, hlookup⟩ := hv
  exact Bindings.forall_lookup (hh.frames frame (Array.mem_of_getElem? hframe)) hlookup

theorem getAt? (hh : h.Holds F M) {f : FrameId} {hops : Nat} (hv : h.getAt? f hops name = some v) :
    v.Each F := by
  obtain ⟨g, _, hown⟩ := Option.bind_eq_some_iff.mp hv
  exact hh.ownValue? hown

theorem get? (hh : h.Holds F M) {f : FrameId} (hv : h.get? f name = some v) : v.Each F := by
  obtain ⟨g, _, hown⟩ := Option.bind_eq_some_iff.mp hv
  exact hh.ownValue? hown

theorem method? (hh : h.Holds F M) {id : ClassId} {m : Closure} (hm : h.method? id name = some m) :
    M m := by
  unfold Heap.method? at hm
  generalize h.classes.size = n at hm
  induction n generalizing id with
  | zero => cases hm
  | succ n ih =>
    obtain ⟨c, hc, hm⟩ := Option.bind_eq_some_iff.mp hm
    cases hlookup : c.methods.lookup name with
    | some m' =>
      rw [hlookup] at hm
      cases hm
      exact Bindings.forall_lookup (hh.classes c (Array.mem_of_getElem? hc)) hlookup
    | none =>
      rw [hlookup] at hm
      obtain ⟨up, _, hm⟩ := Option.bind_eq_some_iff.mp hm
      exact ih hm

theorem field (hh : h.Holds F M) {id : ObjectId} {o : ObjectRecord} (ho : h.object? id = some o)
    (hv : o.fields.lookup name = some v) : v.Each F :=
  Bindings.forall_lookup (hh.objects o (Array.mem_of_getElem? ho)) hv

/-! ### Changing the heap -/

theorem newFrame (hh : h.Holds F M) (parent : Option FrameId) {bindings : Bindings Value}
    (hbindings : ∀ b ∈ bindings, b.2.Each F) : (h.newFrame parent bindings).2.Holds F M := by
  refine ⟨fun f hf => ?_, hh.classes, hh.objects, hh.arrays⟩
  rcases Array.mem_push.mp hf with hf | rfl
  · exact hh.frames f hf
  · exact hbindings

theorem newClass (hh : h.Holds F M) {record : ClassRecord} (hrecord : ∀ b ∈ record.methods, M b.2) :
    (h.newClass record).2.Holds F M := by
  refine ⟨hh.frames, fun c hc => ?_, hh.objects, hh.arrays⟩
  rcases Array.mem_push.mp hc with hc | rfl
  · exact hh.classes c hc
  · exact hrecord

theorem newObject (hh : h.Holds F M) (cls : ClassId) : (h.newObject cls).2.Holds F M := by
  refine ⟨hh.frames, hh.classes, fun o ho => ?_, hh.arrays⟩
  rcases Array.mem_push.mp ho with ho | rfl
  · exact hh.objects o ho
  · exact fun b hb => by cases hb

/-- An element that is changed stays as good as the others. -/
theorem mem_modify {α : Type} {good : α → Prop} {xs : Array α} {i : Nat} {f : α → α}
    (hxs : ∀ x ∈ xs, good x) (hf : ∀ x, good x → good (f x)) : ∀ x ∈ xs.modify i f, good x := by
  intro x hx
  obtain ⟨j, hj, rfl⟩ := Array.mem_iff_getElem.mp hx
  rw [Array.getElem_modify]
  split
  · exact hf _ (hxs _ (Array.getElem_mem _))
  · exact hxs _ (Array.getElem_mem _)

theorem define (hh : h.Holds F M) (f : FrameId) (name : String) (hv : v.Each F) :
    (h.define f name v).Holds F M := by
  refine ⟨?_, hh.classes, hh.objects, hh.arrays⟩
  have hput : ∀ frame : Frame, (∀ b ∈ frame.bindings, b.2.Each F) →
      ∀ b ∈ frame.bindings.put name v, b.2.Each F := fun _ hframe => Bindings.forall_put hframe hv
  exact mem_modify (f := fun frame => { frame with bindings := frame.bindings.put name v })
    hh.frames hput

theorem setField (hh : h.Holds F M) (id : ObjectId) (name : String) (hv : v.Each F) :
    (h.setField id name v).Holds F M := by
  refine ⟨hh.frames, hh.classes, ?_, hh.arrays⟩
  have hput : ∀ o : ObjectRecord, (∀ b ∈ o.fields, b.2.Each F) →
      ∀ b ∈ o.fields.put name v, b.2.Each F := fun _ ho => Bindings.forall_put ho hv
  exact mem_modify (f := fun o => { o with fields := o.fields.put name v }) hh.objects hput

/-! ### Native code -/

/-- Values whose functions are as `F` says are related to themselves. -/
theorem related_self (hv : v.Each F) : v.Related (fun f g => f = g ∧ F f) (· = ·) v := by
  cases v with
  | function f => exact .function ⟨rfl, hv⟩
  | arrayMethod id m p => exact .arrayMethod id m rfl
  | _ => exact .data trivial

theorem each_of_related {w : Value} (h : v.Related (fun f g => f = g ∧ F f) (· = ·) w) :
    v.Each F := by
  cases h with
  | @data v hdata =>
    cases v with
    | function f => cases hdata
    | _ => trivial
  | function h => exact h.2
  | arrayMethod => trivial

theorem eq_of_related {w : Value} (h : v.Related (fun f g => f = g ∧ F f) (· = ·) w) : v = w := by
  cases h with
  | data => rfl
  | function h => rw [h.1]
  | arrayMethod id m h => rw [h]

theorem equalAgrees_self (h : Heap) : Value.EqualAgrees (fun f g => f = g ∧ F f) (· = ·) h h := by
  intro v v' w w' hv hw
  rw [eq_of_related hv, eq_of_related hw]

theorem arraysRelated_self (hh : h.Holds F M) :
    h.ArraysRelated (fun f g => f = g ∧ F f) (· = ·) h := by
  rw [ArraysRelated, List.forall₂_same]
  intro a ha
  rw [List.forall₂_same]
  exact fun v hv => related_self (hh.arrays a (Array.mem_toList_iff.mp ha) v (Array.mem_toList_iff.mp hv))

theorem of_arraysRelated {h' : Heap} (hh : h.Holds F M)
    (harrays : h'.ArraysRelated (fun f g => f = g ∧ F f) (· = ·) h')
    (hrest : h' = { h with arrays := h'.arrays }) : h'.Holds F M := by
  have hall : ∀ a ∈ h'.arrays, ∀ v ∈ a, v.Each F := by
    rw [ArraysRelated, List.forall₂_same] at harrays
    intro a ha v hv
    have ha' := harrays a (Array.mem_toList_iff.mpr ha)
    rw [List.forall₂_same] at ha'
    exact each_of_related (ha' v (Array.mem_toList_iff.mpr hv))
  rw [hrest]
  exact ⟨hh.frames, hh.classes, hh.objects, hall⟩

theorem beside_self {m : Machine} (hh : m.heap.Holds F M) :
    Native.Beside (fun f g => f = g ∧ F f) (· = ·) #[] m m :=
  ⟨arraysRelated_self hh, Array.empty_append.symm, rfl, rfl, rfl, rfl⟩

/-- What native functions leave behind holds no new closures. -/
theorem native {m : Machine} (hh : m.heap.Holds F M) (f : Native) {vs : List Value}
    (hvs : ∀ v ∈ vs, v.Each F) :
    Ends (f.run vs) m
      (fun v m' => v.Each F ∧ m'.heap.Holds F M ∧ m'.heap.frames = m.heap.frames ∧
        m'.current = m.current ∧ m'.hops = m.hops)
      (fun _ m' => m'.heap.Holds F M ∧ m'.heap.frames = m.heap.frames ∧
        m'.current = m.current ∧ m'.hops = m.hops) := by
  have hrun := Native.run_related (beside_self hh) (equalAgrees_self m.heap) f
    (List.forall₂_same.mpr fun v hv => related_self (hvs v hv))
  have hleaves : ∀ {m'}, Native.Leaves (fun f g => f = g ∧ F f) (· = ·) #[] m m m' m' →
      m'.heap.Holds F M ∧ m'.heap.frames = m.heap.frames ∧ m'.current = m.current ∧
        m'.hops = m.hops := by
    intro m' hm'
    refine ⟨of_arraysRelated hh hm'.beside.arrays (congrArg Machine.heap hm'.left), ?_, ?_, ?_⟩ <;>
      rw [hm'.left]
  unfold Agree at hrun
  unfold Ends
  cases hresult : (f.run vs).run m with
  | ok v m' =>
    rw [hresult] at hrun
    exact ⟨each_of_related hrun.1, hleaves hrun.2⟩
  | error e m' =>
    rw [hresult] at hrun
    exact hleaves hrun.2

theorem arrayMethod (hh : h.Holds F M) (id : ArrayId) (method : ArrayMethod) {vs : List Value}
    (hvs : ∀ v ∈ vs, v.Each F) {h' : Heap} (hrun : method.run h id vs = .ok (v, h')) :
    v.Each F ∧ h'.Holds F M ∧ h'.frames = h.frames := by
  have hrelated := ArrayMethod.run_related (arraysRelated_self hh) id method
    (List.forall₂_same.mpr fun v hv => related_self (hvs v hv))
  rw [hrun] at hrelated
  cases hrelated with
  | ok h =>
    obtain ⟨hv, harrays, hrest, _⟩ := h
    have hrest : h' = { h with arrays := h'.arrays } := hrest
    exact ⟨each_of_related hv, of_arraysRelated hh harrays hrest, by rw [hrest]⟩

end Holds

/-! ### What native code leaves alone -/

theorem holds_anything (h : Heap) : h.Holds (fun _ => True) fun _ => True := by
  have hany : ∀ v : Value, v.Each fun _ => True := fun v => by cases v <;> trivial
  exact ⟨fun _ _ b _ => hany b.2, fun _ _ _ _ => trivial, fun _ _ b _ => hany b.2, fun _ _ v _ => hany v⟩

/-- Native functions change nothing in the heap but arrays. -/
theorem native_arrays (f : Native) (vs : List Value) (m : Machine) :
    Ends (f.run vs) m (fun _ m' => m'.heap = { m.heap with arrays := m'.heap.arrays })
      (fun _ m' => m'.heap = { m.heap with arrays := m'.heap.arrays }) := by
  have hany := holds_anything m.heap
  have hvs : ∀ v ∈ vs, v.Each fun _ => True := fun v _ => by cases v <;> trivial
  have hrun := Native.run_related (Holds.beside_self hany) (Holds.equalAgrees_self m.heap) f
    (List.forall₂_same.mpr fun v hv => Holds.related_self (hvs v hv))
  unfold Agree at hrun
  unfold Ends
  cases hresult : (f.run vs).run m with
  | ok v m' =>
    rw [hresult] at hrun
    exact congrArg Machine.heap hrun.2.left
  | error e m' =>
    rw [hresult] at hrun
    exact congrArg Machine.heap hrun.2.left

/-- Methods of arrays change nothing in the heap but arrays. -/
theorem arrayMethod_arrays {h h' : Heap} {id : ArrayId} {method : ArrayMethod} {vs : List Value} {v : Value}
    (hrun : method.run h id vs = .ok (v, h')) : h' = { h with arrays := h'.arrays } := by
  have hvs : ∀ v ∈ vs, v.Each fun _ => True := fun v _ => by cases v <;> trivial
  have hrelated := ArrayMethod.run_related (Holds.arraysRelated_self (holds_anything h)) id method
    (List.forall₂_same.mpr fun v hv => Holds.related_self (hvs v hv))
  rw [hrun] at hrelated
  cases hrelated with
  | ok h => exact h.2.2.1

end Heap

namespace Exec

/-! ### What calls and declarations bind -/

theorem argumentBindings_each {F : Closure → Prop} (parameters : List Ident) {arguments : List Value}
    (hvs : ∀ v ∈ arguments, v.Each F) :
    ∀ b ∈ argumentBindings parameters arguments, b.2.Each F := by
  have hfold : ∀ bindings : Bindings Value, (∀ b ∈ bindings, b.2.Each F) →
      ∀ b ∈ (parameters.zip arguments).foldl (fun bindings b => bindings.put b.1.name b.2) bindings,
        b.2.Each F := by
    induction parameters generalizing arguments with
    | nil => exact fun _ h => h
    | cons p rest ih =>
      cases arguments with
      | nil => exact fun _ h => h
      | cons v vs =>
        intro bindings hbindings
        refine ih (fun w hw => hvs w (List.mem_cons_of_mem _ hw)) _ ?_
        exact Bindings.forall_put hbindings (hvs v List.mem_cons_self)
  exact hfold [] (by simp)

theorem methodBindings_each {frame : FrameId} {methods : List FunctionDecl} {M : Closure → Prop}
    (hmethods : ∀ m ∈ methods, ∀ initializer, M ⟨m, frame, initializer⟩) :
    ∀ b ∈ methodBindings frame methods, M b.2 := by
  have hfold : ∀ bindings : Bindings Closure, (∀ b ∈ bindings, M b.2) →
      ∀ b ∈ methods.foldl (fun bindings m => bindings.put m.name.name
        ⟨m, frame, decide (m.name.name = initializerName)⟩) bindings, M b.2 := by
    induction methods with
    | nil => exact fun _ h => h
    | cons m rest ih =>
      intro bindings hbindings
      refine ih (fun m' hm' => hmethods m' (List.mem_cons_of_mem _ hm')) _ ?_
      exact Bindings.forall_put hbindings (hmethods m List.mem_cons_self _)
  exact hfold [] (by simp)

end Exec

end LoxLang
