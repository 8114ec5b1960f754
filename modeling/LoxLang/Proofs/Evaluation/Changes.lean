import LoxLang.Proofs.Evaluation.Kept
import LoxLang.Proofs.Evaluation.Tasks
import LoxLang.Proofs.Heap.Live
import Mathlib.Logic.Relation

/-!
The changes that running code makes to the heap, one at a time. Each of them keeps the heap intact and well
founded, and none gives `this` or `super` another value. The changes of variables and of classes tell the task
that makes them; those that make scopes tell what for.
-/

namespace LoxLang

open Exec

/-! ### Where tasks end -/

/-- The state that a computation ends in, however it ends. -/
def Exec.after {α : Type} (x : Exec α) (m : Machine) : Machine :=
  match x.run m with
  | .ok _ m' => m'
  | .error _ m' => m'

/-- The state that a task ends in, however it ends. -/
def Task.after : Task → Machine → Machine
  | .evaluate fuel e => (LoxLang.evaluate fuel e).after
  | .evaluateAll fuel es => (LoxLang.evaluateAll fuel es).after
  | .property v name => (Exec.property v name).after
  | .call fuel callee arguments paren => (LoxLang.call fuel callee arguments paren).after
  | .instantiate fuel id arguments => (LoxLang.instantiate fuel id arguments).after
  | .invoke fuel f arguments => (LoxLang.invoke fuel f arguments).after
  | .execute fuel s => (LoxLang.execute fuel s).after
  | .loop fuel condition body increment => (LoxLang.loop fuel condition body increment).after
  | .executeAll fuel body => (LoxLang.executeAll fuel body).after

/-! ### The scope that an assignment changes -/

namespace Exec

/-- The scope that an assignment to a variable changes: the one at the recorded distance, if it binds the
name, or else the globals. -/
def target? (m : Machine) (r : Reference) : Option FrameId :=
  match m.hops.find? r.id with
  | some hops =>
    (m.heap.ancestor? m.current hops).filter fun f => (m.heap.ownValue? f r.ident.name).isSome
  | none => m.heap.owner? .globals r.ident.name

theorem reassign?_eq (m : Machine) (r : Reference) (v : Value) :
    reassign? m r v = (target? m r).map fun f => m.heap.define f r.ident.name v := by
  unfold reassign? target?
  cases m.hops.find? r.id with
  | none => exact m.heap.assign?_eq .globals r.ident.name v
  | some hops => exact m.heap.assignAt?_eq m.current hops r.ident.name v

/-- An assignment changes a scope that binds the name. -/
theorem target?_binds {m : Machine} {r : Reference} {f : FrameId} (hf : target? m r = some f) :
    (m.heap.ownValue? f r.ident.name).isSome := by
  unfold target? at hf
  split at hf
  · obtain ⟨-, hbound⟩ := Option.filter_eq_some_iff.mp hf
    exact hbound
  · exact owner?_binds hf

end Exec

/-! ### What scopes are made for -/

namespace Heap

/-- Methods are looked for from the class on, to be bound to the object: the class is the object's own, or the
superclass around the scope that the object is the receiver of. -/
inductive Seeks (h : Heap) (receiver : ObjectId) : ClassId → Prop where
  | own {object} (hobject : h.object? receiver = some object) : Seeks h receiver object.cls
  | super {scope outer cls} (hparent : h.parent? scope = some outer)
    (hthis : h.ownValue? scope thisName = some (.object receiver))
    (hsuper : h.ownValue? outer superName = some (.cls cls)) : Seeks h receiver cls

/-- What a new scope binds, and where it is made. -/
inductive Opens (h : Heap) : FrameId → Bindings Value → Prop where
  /-- Blocks and calls bind names that programs can give. -/
  | plain {parent bindings} (hnames : ∀ x, (bindings.lookup x).isSome → LoxLang.Plain x) : Opens h parent bindings
  | superclass (parent : FrameId) (cls : ClassId) : Opens h parent [(superName, .cls cls)]
  /-- A method that is found for an object is bound to it. -/
  | receiver {f : Closure} {cls name receiver} (hseeks : h.Seeks receiver cls)
    (hmethod : h.method? cls name = some f) : Opens h f.frame [(thisName, .object receiver)]

/-- The methods of a new class with this superclass, or without one, can see the scope. That of a derived class
is newer than those that the methods of older classes see. -/
def Sees (h : Heap) (frame : FrameId) : Option ClassId → Prop
  | none => h.ownValue? frame superName = none
  | some up => h.ownValue? frame superName = some (.cls up) ∧ ∀ f, h.HasMethod f → f.frame.index < frame.index

end Heap

/-! ### Changes -/

/-- A change to the heap, where `R` tells which tasks begin in which states. -/
inductive Heap.Change (R : Task → Machine → Prop) : Heap → Heap → Prop where
  /-- Native code changes arrays. -/
  | arrays {h h' : Heap} (hheap : h' = { h with arrays := h'.arrays })
    (hitems : h'.ItemsEach (Value.Live h)) : Change R h h'
  | setField {h v} (id : ObjectId) (name : String) (hv : v.Live h) : Change R h (h.setField id name v)
  | newObject {h} (cls : ClassId) : Change R h (h.newObject cls).2
  /-- A scope is made for a block, a call or a superclass, or for the receiver of a method. -/
  | newFrame {h parent bindings} (hparent : parent.index < h.frames.size)
    (hbindings : ∀ b ∈ bindings, b.2.Live h) (hopens : h.Opens parent bindings) :
    Change R h (h.newFrame (some parent) bindings).2
  /-- A class is made by its declaration, with methods that see the scope of the declaration. -/
  | newClass {n name clause methods m h frame superclass}
    (htask : R (.execute (n + 1) (.classDecl name clause methods)) m)
    (hclasses : h.classes = m.heap.classes)
    (hmade : ((Task.execute (n + 1) (.classDecl name clause methods)).after m).heap.class?
      ⟨m.heap.classes.size⟩ = some ⟨name.name, superclass, methodBindings frame methods⟩)
    (hframe : ∃ steps, h.ancestor? frame steps = some m.current)
    (hsuperclass : ∀ up, superclass = some up → up.index < h.classes.size)
    (hmethods : ∀ f ∈ methods, Closure.Live h ⟨f, frame, decide (f.name.name = initializerName)⟩)
    (hapart : (methods.map FunctionDecl.id).Nodup) (hsees : h.Sees frame superclass) :
    Change R h (h.newClass ⟨name.name, superclass, methodBindings frame methods⟩).2
  /-- A declaration gives its name a value in the scope it is executed in. -/
  | declare {n s m h x v} (htask : R (.execute (n + 1) s) m) (hs : s.declared? = some x) (hv : v.Live h)
    (hname : LoxLang.Plain x) : Change R h (h.define m.current x v)
  /-- An assignment changes the value of a variable where it is bound. -/
  | assign {n r e m v m' f} (htask : R (.evaluate (n + 1) (.assign r e)) m)
    (hrun : (evaluate n e).run m = .ok v m') (hf : target? m' r = some f) (hv : v.Live m'.heap)
    (hname : LoxLang.Plain r.ident.name) : Change R m'.heap (m'.heap.define f r.ident.name v)

/-- Changes one after the other. -/
abbrev Heap.Changes (R : Task → Machine → Prop) : Heap → Heap → Prop :=
  Relation.ReflTransGen (Heap.Change R)

/-- The class was made by a declaration of the history `R`, and the scope that this was executed in is around
all methods of the class. -/
def Heap.Made (R : Task → Machine → Prop) (h : Heap) (id : ClassId) (c : ClassRecord) : Prop :=
  ∃ fuel name clause methods m, R (.execute fuel (.classDecl name clause methods)) m ∧
    id.index = m.heap.classes.size ∧
      ((Task.execute fuel (.classDecl name clause methods)).after m).heap.class? id = some c ∧
        ∀ b ∈ c.methods, ∃ steps, h.ancestor? b.2.frame steps = some m.current

namespace Heap

variable {R : Task → Machine → Prop} {h h' : Heap}

theorem methodBindings_live {frame : FrameId} {methods : List FunctionDecl}
    (hmethods : ∀ f ∈ methods, Closure.Live h ⟨f, frame, decide (f.name.name = initializerName)⟩) :
    ∀ b ∈ methodBindings frame methods, b.2.Live h :=
  methodBindings_each (M := Closure.Live h) fun f hf _ => ⟨(hmethods f hf).frame, (hmethods f hf).code⟩

theorem methodBindings_frame (frame : FrameId) (methods : List FunctionDecl) :
    ∀ b ∈ methodBindings frame methods, b.2.frame = frame :=
  methodBindings_each (M := fun f => f.frame = frame) fun _ _ _ => rfl

theorem class?_newClass (h : Heap) (c : ClassRecord) :
    (h.newClass c).2.class? (h.newClass c).1 = some c := by
  simp [class?, newClass]

theorem Made.mono {id : ClassId} {c : ClassRecord} (hmade : Made R h id c) (hextends : h.Extends h') :
    Made R h' id c := by
  obtain ⟨fuel, name, clause, methods, m, htask, hid, hc, hmethods⟩ := hmade
  refine ⟨fuel, name, clause, methods, m, htask, hid, hc, fun b hb => ?_⟩
  obtain ⟨steps, hsteps⟩ := hmethods b hb
  exact ⟨steps, hextends.ancestor? hsteps⟩

namespace Change

theorem «extends» (hc : Change R h h') : h.Extends h' := by
  cases hc with
  | arrays hheap =>
    rw [hheap]
    exact .of_same rfl rfl
  | setField => exact .of_same rfl rfl
  | newObject => exact .of_same rfl rfl
  | newFrame => exact .newFrame _ _ _
  | newClass => exact .newClass _ _
  | declare => exact .define _ _ _ _
  | assign => exact .define _ _ _ _

theorem founded (hc : Change R h h') (hh : h.Founded) : h'.Founded := by
  have hextends := hc.extends
  cases hc with
  | arrays hheap =>
    rw [hheap] at hextends ⊢
    exact hh.of_extends hextends rfl rfl
  | setField => exact hh.of_extends hextends rfl rfl
  | newObject => exact hh.of_extends hextends rfl rfl
  | newFrame hparent => exact hh.newFrame hparent _
  | newClass _ _ _ _ hsuperclass => exact hh.newClass hsuperclass
  | declare => exact hh.of_extends hextends (by simp [define]) rfl
  | assign => exact hh.of_extends hextends (by simp [define]) rfl

theorem intact (hc : Change R h h') (hh : h.Intact) : h'.Intact := by
  have hextends := hc.extends
  cases hc with
  | arrays hheap hitems =>
    have hframes : h'.frames = h.frames := by rw [hheap]
    have hobjects : h'.objects = h.objects := by rw [hheap]
    have hclasses : h'.classes = h.classes := by rw [hheap]
    refine hh.change hextends (fun v hv => ?_) fun f hf => .inl ?_
    · cases hv with
      | bound hf hb => exact .inl (.bound (hframes ▸ hf) hb)
      | field ho hb => exact .inl (.field (hobjects ▸ ho) hb)
      | item ha hv => exact .inr ((hitems _ ha _ hv).mono hextends)
    · rwa [HasMethod, ← hclasses]
  | setField id name hv =>
    refine hh.change hextends (fun w hw => ?_) fun f hf => .inl hf
    exact hw.setField.imp_right fun heq => by rw [heq]; exact hv.mono hextends
  | newObject => exact hh.change hextends (fun w hw => .inl hw.newObject) fun f hf => .inl hf
  | newFrame _ hbindings =>
    refine hh.change hextends (fun w hw => hw.newFrame.imp_right ?_) fun f hf => .inl hf
    rintro ⟨b, hb, rfl⟩
    exact (hbindings b hb).mono hextends
  | newClass _ _ _ _ _ hmethods =>
    refine hh.change hextends (fun w hw => .inl ?_) fun f hf => hf.newClass.imp_right ?_
    · cases hw with
      | bound hf hb => exact .bound hf hb
      | field ho hb => exact .field ho hb
      | item ha hv => exact .item ha hv
    · rintro ⟨b, hb, rfl⟩
      exact (methodBindings_live hmethods b hb).mono hextends
  | declare _ _ hv =>
    refine hh.change hextends (fun w hw => ?_) fun f hf => .inl hf
    exact hw.define.imp_right fun heq => by rw [heq]; exact hv.mono hextends
  | assign _ _ _ hv =>
    refine hh.change hextends (fun w hw => ?_) fun f hf => .inl hf
    exact hw.define.imp_right fun heq => by rw [heq]; exact hv.mono hextends

/-- The names that programs cannot give keep their values. -/
theorem ownValue?_special (hc : Change R h h') {f : FrameId} {x : String} (hf : f.index < h.frames.size)
    (hx : ¬LoxLang.Plain x) : h'.ownValue? f x = h.ownValue? f x := by
  have hother : ∀ {g y v}, LoxLang.Plain y → (h.define g y v).ownValue? f x = h.ownValue? f x := by
    intro g y v hy
    have hne : ¬x = y := fun hxy => hx (hxy ▸ hy)
    by_cases hg : f = g
    · subst hg
      rw [ownValue?_define hf, if_neg fun h => hne h.2]
    · rw [ownValue?, frame?_define, if_neg hg, ownValue?]
  cases hc with
  | arrays hheap =>
    rw [hheap]
    rfl
  | setField => rfl
  | newObject => rfl
  | newFrame => rw [ownValue?, frame?_newFrame _ _ hf, ownValue?]
  | newClass => rfl
  | declare _ _ _ hname => exact hother hname
  | assign _ _ _ _ hname => exact hother hname

/-- Classes that are new have been made by a declaration. -/
theorem made (hc : Change R h h') (hh : ∀ id c, h.class? id = some c → Made R h id c) :
    ∀ id c, h'.class? id = some c → Made R h' id c := by
  intro id c hid
  have hextends := hc.extends
  by_cases hold : id.index < h.classes.size
  · rw [hextends.record id hold] at hid
    exact (hh id c hid).mono hextends
  · have hlt := lt_of_class? hid
    cases hc with
    | arrays hheap =>
      rw [hheap] at hlt
      exact absurd hlt hold
    | setField => exact absurd hlt hold
    | newObject => exact absurd hlt hold
    | newFrame => exact absurd hlt hold
    | declare => exact absurd hlt hold
    | assign => exact absurd hlt hold
    | @newClass n name clause methods m _ frame superclass htask hclasses hmade hframe =>
      obtain rfl := eq_newClass hold hlt
      rw [class?_newClass] at hid
      obtain rfl := Option.some.inj hid
      refine ⟨n + 1, name, clause, methods, m, htask, congrArg Array.size hclasses, ?_, fun b hb => ?_⟩
      · change Heap.class? _ (ClassId.mk h.classes.size) = _
        rw [hclasses]
        exact hmade
      · obtain ⟨steps, hsteps⟩ := hframe
        rw [methodBindings_frame frame methods b hb]
        exact ⟨steps, hextends.ancestor? hsteps⟩

end Change

namespace Changes

theorem «extends» (hc : Changes R h h') : h.Extends h' := by
  induction hc with
  | refl => exact .refl h
  | tail _ hlast ih => exact ih.trans hlast.extends

theorem founded (hc : Changes R h h') (hh : h.Founded) : h'.Founded := by
  induction hc with
  | refl => exact hh
  | tail _ hlast ih => exact hlast.founded ih

theorem intact (hc : Changes R h h') (hh : h.Intact) : h'.Intact := by
  induction hc with
  | refl => exact hh
  | tail _ hlast ih => exact hlast.intact ih

theorem ownValue?_special (hc : Changes R h h') {f : FrameId} {x : String} (hf : f.index < h.frames.size)
    (hx : ¬LoxLang.Plain x) : h'.ownValue? f x = h.ownValue? f x := by
  induction hc with
  | refl => rfl
  | tail hfirst hlast ih =>
    exact (hlast.ownValue?_special (Nat.lt_of_lt_of_le hf (Changes.extends hfirst).frames) hx).trans ih

theorem made (hc : Changes R h h') (hh : ∀ id c, h.class? id = some c → Made R h id c) :
    ∀ id c, h'.class? id = some c → Made R h' id c := by
  induction hc with
  | refl => exact hh
  | tail _ hlast ih => exact hlast.made ih

end Changes

end Heap

end LoxLang
