import LoxLang.Proofs.Heap.Contents
import LoxLang.Proofs.Syntax.Alike

/-!
Heaps that are the same but for the code in them. Everything in the one heap stands at the same index as in
the other, so identities need no translation; only the declarations of functions and the places of array
methods differ, and they correspond as a skew says. Looking something up in two such heaps finds the same
thing, and changing them in the same way keeps them alike.
-/

namespace LoxLang

structure Closure.Alike (S : Skew) (f g : Closure) : Prop where
  declaration : f.declaration.Alike S g.declaration
  frame : f.frame = g.frame
  isInitializer : f.isInitializer = g.isInitializer

/-- Values that are the same but for the code they refer to. -/
abbrev Value.Alike (S : Skew) : Value → Value → Prop :=
  Value.Related (Closure.Alike S) S.place

structure Frame.Alike (S : Skew) (f g : Frame) : Prop where
  bindings : Bindings.Alike (Value.Alike S) f.bindings g.bindings
  parent : f.parent = g.parent

structure ClassRecord.Alike (S : Skew) (c d : ClassRecord) : Prop where
  name : c.name = d.name
  superclass : c.superclass = d.superclass
  methods : Bindings.Alike (Closure.Alike S) c.methods d.methods

structure ObjectRecord.Alike (S : Skew) (o p : ObjectRecord) : Prop where
  cls : o.cls = p.cls
  fields : Bindings.Alike (Value.Alike S) o.fields p.fields

structure Heap.Alike (S : Skew) (h h' : Heap) : Prop where
  frames : List.Forall₂ (Frame.Alike S) h.frames.toList h'.frames.toList
  classes : List.Forall₂ (ClassRecord.Alike S) h.classes.toList h'.classes.toList
  objects : List.Forall₂ (ObjectRecord.Alike S) h.objects.toList h'.objects.toList
  arrays : h.ArraysRelated (Closure.Alike S) S.place h'

namespace Heap.Alike

variable {S : Skew} {h h' : Heap} {v w : Value}

/-- Apart from their scopes, heaps that are alike differ in the code of closures only. -/
theorem contents (hh : h.Alike S h') : ContentsRelated (Closure.Alike S) (Closure.Alike S) S.place h h' :=
  ⟨hh.classes.imp fun _ _ hcd => ⟨hcd.name, hcd.superclass, hcd.methods⟩,
    hh.objects.imp fun _ _ hop => ⟨hop.cls, hop.fields⟩, hh.arrays⟩

/-! ### Scopes -/

theorem frame? (hh : h.Alike S h') (id : FrameId) :
    Option.Rel (Frame.Alike S) (h.frame? id) (h'.frame? id) :=
  getElem?_related hh.frames id.index

theorem parent? (hh : h.Alike S h') (id : FrameId) : h.parent? id = h'.parent? id :=
  rel_eq <| rel_bind (hh.frame? id) fun f g hfg => by
    rw [hfg.parent]
    cases g.parent with
    | none => exact .none
    | some _ => exact .some rfl

theorem ownValue? (hh : h.Alike S h') (id : FrameId) (name : String) :
    Option.Rel (Value.Alike S) (h.ownValue? id name) (h'.ownValue? id name) :=
  rel_bind (hh.frame? id) fun _ _ hfg => hfg.bindings.lookup name

theorem ancestor? (hh : h.Alike S h') (id : FrameId) (hops : Nat) :
    h.ancestor? id hops = h'.ancestor? id hops := by
  induction hops generalizing id with
  | zero => rfl
  | succ hops ih => simp only [Heap.ancestor?, hh.parent?, ih]

theorem getAt? (hh : h.Alike S h') (id : FrameId) (hops : Nat) (name : String) :
    Option.Rel (Value.Alike S) (h.getAt? id hops name) (h'.getAt? id hops name) := by
  unfold Heap.getAt?
  rw [hh.ancestor?]
  cases h'.ancestor? id hops with
  | none => exact .none
  | some f => exact hh.ownValue? f name

theorem owner? (hh : h.Alike S h') (id : FrameId) (name : String) :
    h.owner? id name = h'.owner? id name := by
  unfold Heap.owner?
  rw [size_related hh.frames]
  generalize h'.frames.size = n
  induction n generalizing id with
  | zero => rfl
  | succ n ih =>
    have hrest : h.ownerWithin? name n = h'.ownerWithin? name n := funext ih
    simp only [Heap.ownerWithin?, rel_isSome (hh.ownValue? id name), hh.parent?, hrest]

theorem get? (hh : h.Alike S h') (id : FrameId) (name : String) :
    Option.Rel (Value.Alike S) (h.get? id name) (h'.get? id name) := by
  unfold Heap.get?
  rw [hh.owner?]
  cases h'.owner? id name with
  | none => exact .none
  | some f => exact hh.ownValue? f name

theorem define (hh : h.Alike S h') (id : FrameId) (name : String) (hvw : v.Alike S w) :
    (h.define id name v).Alike S (h'.define id name w) :=
  { hh with
    frames := modify_related hh.frames id.index fun _ _ hfg => ⟨hfg.bindings.put name hvw, hfg.parent⟩ }

theorem assignAt? (hh : h.Alike S h') (id : FrameId) (hops : Nat) (name : String)
    (hvw : v.Alike S w) :
    Option.Rel (Heap.Alike S) (h.assignAt? id hops name v) (h'.assignAt? id hops name w) := by
  unfold Heap.assignAt?
  rw [hh.ancestor?]
  cases h'.ancestor? id hops with
  | none => exact .none
  | some f =>
    simp only [rel_isSome (hh.ownValue? f name)]
    split
    · exact .some (hh.define f name hvw)
    · exact .none

theorem assign? (hh : h.Alike S h') (id : FrameId) (name : String) (hvw : v.Alike S w) :
    Option.Rel (Heap.Alike S) (h.assign? id name v) (h'.assign? id name w) := by
  unfold Heap.assign?
  rw [hh.owner?]
  cases h'.owner? id name with
  | none => exact .none
  | some f => exact .some (hh.define f name hvw)

/-- Two new things at the same place, in two heaps that are still alike. -/
def Made {α : Type} (S : Skew) (x y : α × Heap) : Prop :=
  x.1 = y.1 ∧ x.2.Alike S y.2

theorem newFrame (hh : h.Alike S h') (parent : Option FrameId) {bs cs : Bindings Value}
    (hbs : Bindings.Alike (Value.Alike S) bs cs) :
    Made S (h.newFrame parent bs) (h'.newFrame parent cs) := by
  refine ⟨?_, { hh with frames := push_related hh.frames ⟨hbs, rfl⟩ }⟩
  rw [Heap.newFrame, Heap.newFrame, size_related hh.frames]

/-! ### Classes and instances -/

theorem newClass (hh : h.Alike S h') {c d : ClassRecord} (hcd : c.Alike S d) :
    Made S (h.newClass c) (h'.newClass d) := by
  refine ⟨?_, { hh with classes := push_related hh.classes hcd }⟩
  rw [Heap.newClass, Heap.newClass, size_related hh.classes]

theorem newObject (hh : h.Alike S h') (id : ClassId) : Made S (h.newObject id) (h'.newObject id) := by
  refine ⟨?_, { hh with objects := push_related hh.objects ⟨rfl, .nil⟩ }⟩
  rw [Heap.newObject, Heap.newObject, size_related hh.objects]

theorem bind (hh : h.Alike S h') {f g : Closure} (hfg : f.Alike S g) (receiver : ObjectId) :
    (h.bind f receiver).1.Alike S (h'.bind g receiver).1 ∧
      (h.bind f receiver).2.Alike S (h'.bind g receiver).2 := by
  have hbindings : Bindings.Alike (Value.Alike S) [(thisName, .object receiver)]
      [(thisName, .object receiver)] := .cons ⟨rfl, .data trivial⟩ .nil
  obtain ⟨hid, hnew⟩ := hh.newFrame (some f.frame) hbindings
  unfold Heap.bind
  rw [← hfg.frame]
  exact ⟨⟨hfg.declaration, hid, hfg.isInitializer⟩, hnew⟩

theorem setField (hh : h.Alike S h') (id : ObjectId) (name : String) (hvw : v.Alike S w) :
    (h.setField id name v).Alike S (h'.setField id name w) :=
  { hh with
    objects := modify_related hh.objects id.index fun _ _ hop => ⟨hop.cls, hop.fields.put name hvw⟩ }

theorem withArrays (hh : h.Alike S h') {k k' : Heap}
    (harrays : k.ArraysRelated (Closure.Alike S) S.place k') :
    Heap.Alike S { h with arrays := k.arrays } { h' with arrays := k'.arrays } :=
  { hh with arrays := harrays }

/-! ### What programs see of values -/

theorem sameClosure (hS : S.Faithful) (hh : h.Alike S h') {f f' g g' : Closure} (hf : f.Alike S f')
    (hg : g.Alike S g') : Value.sameClosure h f g = Value.sameClosure h' f' g' := by
  have hids : (f.declaration.id == g.declaration.id) =
      (f'.declaration.id == g'.declaration.id) := by
    rw [Bool.eq_iff_iff, beq_iff_eq, beq_iff_eq]
    exact hS hf.declaration.id hg.declaration.id
  unfold Value.sameClosure
  rw [hids, hf.frame, hg.frame, hh.parent?, hh.parent?,
    ContentsRelated.sameObject (hh.ownValue? f'.frame thisName) (hh.ownValue? g'.frame thisName)]

/-- Equality does not tell values apart that are alike. -/
theorem equalAgrees (hS : S.Faithful) (hh : h.Alike S h') :
    Value.EqualAgrees (Closure.Alike S) S.place h h' :=
  ContentsRelated.equalAgrees fun _ _ _ _ hf hg => hh.sameClosure hS hf hg

/-- Values that are alike print as the same text. -/
theorem text (hh : h.Alike S h') (hvw : v.Alike S w) : v.text h = w.text h' :=
  hh.contents.text (fun _ _ hfg => hfg.declaration.name.name) hvw

end Heap.Alike

/-! ### Other correspondences -/

section Imp

variable {S T : Skew}

theorem Closure.Alike.imp {f g : Closure} (h : f.Alike S g) (hST : ∀ ids, S.Within T ids) :
    f.Alike T g :=
  ⟨h.declaration.imp (hST _), h.frame, h.isInitializer⟩

theorem Value.Alike.imp {v w : Value} (h : v.Alike S w) (hST : ∀ ids, S.Within T ids) : v.Alike T w :=
  Value.Related.imp h (fun _ _ hfg => hfg.imp hST) fun _ _ hpq => (hST []).place hpq

/-- Heaps that are alike in one way are alike in another which keeps to it. -/
theorem Heap.Alike.imp {h h' : Heap} (hh : h.Alike S h') (hST : ∀ ids, S.Within T ids) :
    h.Alike T h' := by
  have hvalue : ∀ v w : Value, v.Alike S w → v.Alike T w := fun _ _ hvw => Value.Alike.imp hvw hST
  refine ⟨hh.frames.imp fun f g hfg => ?_, hh.classes.imp fun c d hcd => ?_,
    hh.objects.imp fun o p hop => ?_, hh.arrays.imp fun a b hab => hab.imp hvalue⟩
  · exact ⟨hfg.bindings.imp hvalue, hfg.parent⟩
  · exact ⟨hcd.name, hcd.superclass, hcd.methods.imp fun _ _ hmn => hmn.imp hST⟩
  · exact ⟨hop.cls, hop.fields.imp hvalue⟩

end Imp

end LoxLang
