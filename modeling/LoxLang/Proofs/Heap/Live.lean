import LoxLang.Proofs.Heap.Founded
import LoxLang.Proofs.Heap.Holds
import LoxLang.Proofs.Native.Given

/-!
Heaps in which nothing dangles. A value is live in a heap if what it refers to is there: the scope of a
function, and a class. In an intact heap all values that are stored are live, wherever they are stored, and so
are the methods of classes. Besides, all functions have well-formed declarations.
-/

namespace LoxLang

/-- The closure's scope is there, and its declaration is one that programs have. -/
structure Closure.Live (h : Heap) (f : Closure) : Prop where
  frame : f.frame.index < h.frames.size
  code : f.declaration.WellFormed

/-- What the value refers to is there. -/
def Value.Live (h : Heap) : Value → Prop
  | .function f => f.Live h
  | .cls id => id.index < h.classes.size
  | _ => True

namespace Heap

/-- The value is stored in the heap: bound in a scope, or a field of an instance, or an item of an array. -/
inductive Stores (h : Heap) : Value → Prop where
  | bound {f b} (hf : f ∈ h.frames) (hb : b ∈ f.bindings) : Stores h b.2
  | field {o b} (ho : o ∈ h.objects) (hb : b ∈ o.fields) : Stores h b.2
  | item {a v} (ha : a ∈ h.arrays) (hv : v ∈ a) : Stores h v

/-- The closure is a method of a class of the heap. -/
def HasMethod (h : Heap) (f : Closure) : Prop :=
  ∃ c ∈ h.classes, ∃ b ∈ c.methods, b.2 = f

structure Intact (h : Heap) : Prop where
  stored : ∀ v, h.Stores v → v.Live h
  methods : ∀ f, h.HasMethod f → f.Live h

end Heap

variable {h h' : Heap} {f : Closure} {v : Value} {name : String}

theorem Closure.Live.parameters (hf : f.Live h) : ∀ p ∈ f.declaration.parameters, Plain p.name := by
  obtain ⟨⟨_, _, parameters, _⟩, _, _⟩ := f
  exact hf.code.2.1

theorem Closure.Live.body (hf : f.Live h) : Stmt.AllWellFormed f.declaration.body := by
  obtain ⟨⟨_, _, _, body⟩, _, _⟩ := f
  exact hf.code.2.2

theorem Closure.Live.mono (hf : f.Live h) (hextends : h.Extends h') : f.Live h' :=
  ⟨Nat.lt_of_lt_of_le hf.frame hextends.frames, hf.code⟩

theorem Value.Live.mono (hv : v.Live h) (hextends : h.Extends h') : v.Live h' := by
  cases v with
  | function f => exact Closure.Live.mono hv hextends
  | cls id => exact Nat.lt_of_lt_of_le hv hextends.classes
  | _ => trivial

theorem Value.Live.of_inert (hv : v.Inert) : v.Live h := by
  cases v with
  | function f => exact hv.elim
  | cls id => exact hv.elim
  | _ => trivial

theorem Value.Live.ofConstant (c : Constant) : (Value.ofConstant c).Live h := by
  cases c <;> trivial

namespace Heap

/-! ### Looking things up -/

namespace Intact

theorem ownValue? (hh : h.Intact) {f : FrameId} (hv : h.ownValue? f name = some v) : v.Live h := by
  obtain ⟨frame, hframe, hlookup⟩ := Option.bind_eq_some_iff.mp hv
  have hall : ∀ b ∈ frame.bindings, b.2.Live h := fun b hb =>
    hh.stored _ (.bound (Array.mem_of_getElem? hframe) hb)
  exact Bindings.forall_lookup hall hlookup

theorem getAt? (hh : h.Intact) {f : FrameId} {hops : Nat} (hv : h.getAt? f hops name = some v) :
    v.Live h := by
  obtain ⟨g, -, hown⟩ := Option.bind_eq_some_iff.mp hv
  exact hh.ownValue? hown

theorem get? (hh : h.Intact) {f : FrameId} (hv : h.get? f name = some v) : v.Live h := by
  obtain ⟨g, -, hown⟩ := Option.bind_eq_some_iff.mp hv
  exact hh.ownValue? hown

theorem field (hh : h.Intact) {id : ObjectId} {o : ObjectRecord} (ho : h.object? id = some o)
    (hv : o.fields.lookup name = some v) : v.Live h := by
  have hall : ∀ b ∈ o.fields, b.2.Live h := fun b hb => hh.stored _ (.field (Array.mem_of_getElem? ho) hb)
  exact Bindings.forall_lookup hall hv

theorem items (hh : h.Intact) : h.ItemsEach (Value.Live h) :=
  fun _ ha _ hv => hh.stored _ (.item ha hv)

/-- What a class has under a name is a method of it, or of a class above it. -/
theorem method? (hh : h.Intact) {id : ClassId} (hf : h.method? id name = some f) : f.Live h := by
  have hholds : h.Holds (fun _ => True) h.HasMethod := by
    have hany := holds_anything h
    exact ⟨hany.frames, fun c hc b hb => ⟨c, hc, b, hb, rfl⟩, hany.objects, hany.arrays⟩
  exact hh.methods f (hholds.method? hf)

end Intact

/-! ### Changing the heap -/

/-- All values that are stored behind a change were stored before it or are live. -/
theorem Intact.change (hh : h.Intact) (hextends : h.Extends h')
    (hstored : ∀ v, h'.Stores v → h.Stores v ∨ v.Live h')
    (hmethods : ∀ f, h'.HasMethod f → h.HasMethod f ∨ f.Live h') : h'.Intact where
  stored v hv := by
    rcases hstored v hv with hv | hv
    · exact (hh.stored v hv).mono hextends
    · exact hv
  methods f hf := by
    rcases hmethods f hf with hf | hf
    · exact (hh.methods f hf).mono hextends
    · exact hf

/-- An entry that is put somewhere is the only new one there. -/
theorem mem_put {α : Type} {name : String} {a : α} {bindings : Bindings α} {b : String × α}
    (hb : b ∈ bindings.put name a) : b.2 = a ∨ ∃ b' ∈ bindings, b'.2 = b.2 := by
  let good : α → Prop := fun x => x = a ∨ ∃ b' ∈ bindings, b'.2 = x
  have hbindings : ∀ b' ∈ bindings, good b'.2 := fun b' hb' => .inr ⟨b', hb', rfl⟩
  have hput : good a := .inl rfl
  exact Bindings.forall_put hbindings hput b hb

theorem Stores.define {f : FrameId} {w : Value} (hw : (h.define f name v).Stores w) : h.Stores w ∨ w = v := by
  cases hw with
  | @bound g b hg hb =>
    have hall : ∀ frame ∈ h.frames.modify f.index fun frame =>
        { frame with bindings := frame.bindings.put name v }, ∀ b ∈ frame.bindings, h.Stores b.2 ∨ b.2 = v := by
      refine Holds.mem_modify (fun frame hframe b hb => .inl (.bound hframe hb)) ?_
      intro frame hframe b hb
      rcases mem_put hb with heq | ⟨b', hb', heq⟩
      · exact .inr heq
      · exact heq ▸ hframe b' hb'
    exact hall g hg b hb
  | field ho hb => exact .inl (.field ho hb)
  | item ha hv => exact .inl (.item ha hv)

theorem Stores.newFrame {parent : Option FrameId} {bindings : Bindings Value} {w : Value}
    (hw : (h.newFrame parent bindings).2.Stores w) : h.Stores w ∨ ∃ b ∈ bindings, b.2 = w := by
  cases hw with
  | bound hf hb =>
    rcases Array.mem_push.mp hf with hf | rfl
    · exact .inl (.bound hf hb)
    · exact .inr ⟨_, hb, rfl⟩
  | field ho hb => exact .inl (.field ho hb)
  | item ha hv => exact .inl (.item ha hv)

theorem Stores.setField {id : ObjectId} {w : Value} (hw : (h.setField id name v).Stores w) :
    h.Stores w ∨ w = v := by
  cases hw with
  | bound hf hb => exact .inl (.bound hf hb)
  | @field o b ho hb =>
    have hall : ∀ o ∈ h.objects.modify id.index fun o => { o with fields := o.fields.put name v },
        ∀ b ∈ o.fields, h.Stores b.2 ∨ b.2 = v := by
      refine Holds.mem_modify (fun o ho b hb => .inl (.field ho hb)) ?_
      intro o ho b hb
      rcases mem_put hb with heq | ⟨b', hb', heq⟩
      · exact .inr heq
      · exact heq ▸ ho b' hb'
    exact hall o ho b hb
  | item ha hv => exact .inl (.item ha hv)

theorem Stores.newObject {cls : ClassId} {w : Value} (hw : (h.newObject cls).2.Stores w) : h.Stores w := by
  cases hw with
  | bound hf hb => exact .bound hf hb
  | field ho hb =>
    rcases Array.mem_push.mp ho with ho | rfl
    · exact .field ho hb
    · cases hb
  | item ha hv => exact .item ha hv

theorem HasMethod.newClass {c : ClassRecord} (hf : (h.newClass c).2.HasMethod f) :
    h.HasMethod f ∨ ∃ b ∈ c.methods, b.2 = f := by
  obtain ⟨c', hc', b, hb, rfl⟩ := hf
  rcases Array.mem_push.mp hc' with hc' | rfl
  · exact .inl ⟨c', hc', b, hb, rfl⟩
  · exact .inr ⟨b, hb, rfl⟩

end Heap

end LoxLang
