import LoxLang.Proofs.Evaluation.Changes
import LoxLang.Proofs.Heap.Methods
import Mathlib.Data.List.Nodup

/-!
Lines of classes. The methods of a class see one scope, and that of a derived class is newer than the scopes
that the methods of older classes see; so no two classes of a line share a scope. Where `super` means a class,
the receiver is an instance of a class below it, and a method that is found for an object is one of its line.
-/

namespace LoxLang

open Exec

namespace Heap

/-! ### Going up from a class -/

/-- The second class lies a number of steps above the first one, or is the same. -/
def Below (h : Heap) (id up : ClassId) : Prop :=
  ∃ steps, h.classAbove? id steps = some up

variable {h h' : Heap} {R : Task → Machine → Prop} {id up owner : ClassId} {name : String} {m : Closure}

theorem classAbove?_add (h : Heap) (id : ClassId) (steps more : Nat) :
    h.classAbove? id (steps + more) = (h.classAbove? id steps).bind fun up => h.classAbove? up more := by
  induction steps generalizing id with
  | zero =>
    rw [Nat.zero_add]
    rfl
  | succ steps ih =>
    rw [Nat.succ_add, classAbove?, classAbove?, Option.bind_assoc]
    exact Option.bind_congr fun up _ => ih up

theorem Below.refl (h : Heap) (id : ClassId) : h.Below id id :=
  ⟨0, rfl⟩

theorem Below.trans {top : ClassId} (hup : h.Below id up) (htop : h.Below up top) : h.Below id top := by
  obtain ⟨steps, hsteps⟩ := hup
  obtain ⟨more, hmore⟩ := htop
  exact ⟨steps + more, by rw [classAbove?_add, hsteps, Option.bind_some, hmore]⟩

theorem Below.superclass {c : ClassRecord} (hc : h.class? id = some c) (hup : c.superclass = some up) :
    h.Below id up := by
  refine ⟨1, ?_⟩
  rw [classAbove?, superclass?, hc, Option.bind_some, hup]
  rfl

theorem Below.mono (hup : h.Below id up) (hextends : h.Extends h') : h'.Below id up := by
  obtain ⟨steps, hsteps⟩ := hup
  refine ⟨steps, ?_⟩
  induction steps generalizing id with
  | zero => exact hsteps
  | succ steps ih =>
    obtain ⟨next, hnext, hrest⟩ := Option.bind_eq_some_iff.mp hsteps
    obtain ⟨c, hc, hsuperclass⟩ := Option.bind_eq_some_iff.mp hnext
    have hnext' : h'.superclass? id = some next := by
      rw [superclass?, hextends.record id (lt_of_class? hc), hc]
      exact hsuperclass
    rw [classAbove?, hnext']
    exact ih hrest

/-- A class that lies below another one is that one, or derived and newer. -/
theorem Below.newer (hh : h.Founded) (hup : h.Below id up) :
    id = up ∨ (h.superclass? id).isSome ∧ up.index < id.index := by
  obtain ⟨steps, hsteps⟩ := hup
  induction steps generalizing id with
  | zero => exact .inl (Option.some.inj hsteps)
  | succ steps ih =>
    obtain ⟨next, hnext, hrest⟩ := Option.bind_eq_some_iff.mp hsteps
    have hlt := hh.superclass id next hnext
    refine .inr ⟨by rw [hnext]; rfl, ?_⟩
    rcases ih hrest with rfl | ⟨-, hlt'⟩
    · exact hlt
    · exact Nat.lt_trans hlt' hlt

/-- Two classes above a third one lie in one line. -/
theorem Below.linear {top : ClassId} (hup : h.Below id up) (htop : h.Below id top) :
    h.Below up top ∨ h.Below top up := by
  obtain ⟨i, hi⟩ := hup
  obtain ⟨j, hj⟩ := htop
  rcases Nat.le_total i j with hij | hij
  · refine .inl ⟨j - i, ?_⟩
    rw [← Nat.add_sub_of_le hij, classAbove?_add, hi] at hj
    exact hj
  · refine .inr ⟨i - j, ?_⟩
    rw [← Nat.add_sub_of_le hij, classAbove?_add, hj] at hi
    exact hi

theorem Offers.line (hm : h.Offers name id owner m) : h.Below id owner := by
  induction hm with
  | own => exact .refl h _
  | above hclass _ hsuperclass _ ih => exact (Below.superclass hclass hsuperclass).trans ih

/-! ### Classes and the scopes of their methods -/

/-- The object is an instance of the class, or of one below it. -/
def InstanceOf (h : Heap) (object : ObjectId) (cls : ClassId) : Prop :=
  ∃ record, h.object? object = some record ∧ h.Below record.cls cls

/-- The methods of a class, and the scope that they see. -/
structure Levels (h : Heap) (id : ClassId) (c : ClassRecord) : Prop where
  level : ∀ b ∈ c.methods, ∀ b' ∈ c.methods, b.2.frame = b'.2.frame
  apart : ∀ b ∈ c.methods, ∀ b' ∈ c.methods, b.2.declaration.id = b'.2.declaration.id →
    b.2.declaration = b'.2.declaration
  /-- The class that `super` means in methods is the superclass. -/
  sees : ∀ b ∈ c.methods, ∀ up, h.ownValue? b.2.frame superName = some (.cls up) → c.superclass = some up
  newer : c.superclass.isSome → ∀ id' c', id'.index < id.index → h.class? id' = some c' →
    ∀ b ∈ c.methods, ∀ b' ∈ c'.methods, b'.2.frame.index < b.2.frame.index

/-- Classes lie in lines, each with a scope of its own, and receivers fit the classes around them. -/
structure Lineal (h : Heap) : Prop where
  classes : ∀ id c, h.class? id = some c → h.Levels id c
  receivers : ∀ scope outer receiver up, h.parent? scope = some outer →
    h.ownValue? scope thisName = some (.object receiver) → h.ownValue? outer superName = some (.cls up) →
      h.InstanceOf receiver up

/-- The object for which methods are looked for from a class on is an instance of that class. -/
theorem Lineal.instanceOf (hh : h.Lineal) {receiver : ObjectId} (hseeks : h.Seeks receiver id) :
    h.InstanceOf receiver id := by
  cases hseeks with
  | own hobject => exact ⟨_, hobject, .refl h _⟩
  | super hparent hthis hsuper => exact hh.receivers _ _ _ _ hparent hthis hsuper

theorem InstanceOf.above {receiver : ObjectId} (hobject : h.InstanceOf receiver id) (hup : h.Below id up) :
    h.InstanceOf receiver up := by
  obtain ⟨record, hrecord, hbelow⟩ := hobject
  exact ⟨record, hrecord, hbelow.trans hup⟩

/-- Two classes of an object's line with methods that see one scope are the same class. -/
theorem Lineal.eq_of_frame (hh : h.Lineal) (hfounded : h.Founded) {object : ObjectId} {id' : ClassId}
    {c c' : ClassRecord} (hid : h.InstanceOf object id) (hid' : h.InstanceOf object id')
    (hc : h.class? id = some c) (hc' : h.class? id' = some c') {b b' : String × Closure} (hb : b ∈ c.methods)
    (hb' : b' ∈ c'.methods) (hframe : b.2.frame = b'.2.frame) : id = id' := by
  obtain ⟨record, hrecord, hbelow⟩ := hid
  obtain ⟨record', hrecord', hbelow'⟩ := hid'
  obtain rfl := Option.some.inj (hrecord.symm.trans hrecord')
  have hnewer : ∀ {id c id' c'}, h.Below id id' → h.class? id = some c → h.class? id' = some c' →
      ∀ {b b' : String × Closure}, b ∈ c.methods → b' ∈ c'.methods → b.2.frame = b'.2.frame → id = id' := by
    intro id c id' c' hbelow hc hc' b b' hb hb' hframe
    rcases hbelow.newer hfounded with heq | ⟨hderived, hlt⟩
    · exact heq
    · rw [superclass?, hc] at hderived
      have hscopes := (hh.classes id c hc).newer hderived id' c' hlt hc' b hb b' hb'
      exact absurd (hframe ▸ hscopes) (Nat.lt_irrefl _)
  rcases hbelow.linear hbelow' with hup | hup
  · exact hnewer hup hc hc' hb hb' hframe
  · exact (hnewer hup hc' hc hb' hb hframe.symm).symm

/-! ### How heaps stay so -/

/-- An object stays in its class when a field of some object is set. -/
theorem object?_setField {object object' : ObjectId} {record : ObjectRecord} (v : Value)
    (hrecord : h.object? object = some record) :
    ∃ record', (h.setField object' name v).object? object = some record' ∧ record'.cls = record.cls := by
  have hrecord : h.objects[object.index]? = some record := hrecord
  have hmodify : (h.setField object' name v).object? object = if object'.index = object.index then
      some { record with fields := record.fields.put name v } else some record := by
    rw [object?, setField, Array.getElem?_modify, hrecord]
    rfl
  rw [hmodify]
  split
  · exact ⟨_, rfl, rfl⟩
  · exact ⟨_, rfl, rfl⟩

namespace Change

theorem instanceOf (hc : Change R h h') {object : ObjectId} (hobject : h.InstanceOf object id) :
    h'.InstanceOf object id := by
  obtain ⟨record, hrecord, hbelow⟩ := hobject
  have hbelow := hbelow.mono hc.extends
  cases hc with
  | arrays hheap =>
    rw [hheap] at hbelow ⊢
    exact ⟨record, hrecord, hbelow⟩
  | setField =>
    obtain ⟨record', hrecord', hcls⟩ := object?_setField _ hrecord
    exact ⟨record', hrecord', hcls ▸ hbelow⟩
  | newObject cls =>
    have hlt := (Array.getElem?_eq_some_iff.mp hrecord).1
    refine ⟨record, ?_, hbelow⟩
    rw [object?, Heap.newObject, Array.getElem?_push, if_neg (Nat.ne_of_lt hlt)]
    exact hrecord
  | newFrame => exact ⟨record, hrecord, hbelow⟩
  | newClass => exact ⟨record, hrecord, hbelow⟩
  | declare => exact ⟨record, hrecord, hbelow⟩
  | assign => exact ⟨record, hrecord, hbelow⟩

/-- The classes that were there stay as they are. -/
theorem levels (hc : Change R h h') (hh : h.Intact) {c : ClassRecord} (hid : h.class? id = some c)
    (hlevels : h.Levels id c) : h'.Levels id c := by
  refine ⟨hlevels.level, hlevels.apart, fun b hb up hup => ?_, fun hderived id' c' hlt hc' => ?_⟩
  · have hlive := (hh.methods b.2 ⟨c, Array.mem_of_getElem? hid, b, hb, rfl⟩).frame
    rw [hc.ownValue?_special hlive fun hplain => hplain.2 rfl] at hup
    exact hlevels.sees b hb up hup
  · rw [hc.extends.record id' (Nat.lt_trans hlt (lt_of_class? hid))] at hc'
    exact hlevels.newer hderived id' c' hlt hc'

/-- A new class has a new level. -/
theorem levels_newClass {clause : Option ClassId} {frame : FrameId} {methods : List FunctionDecl}
    {className : String} (hapart : (methods.map FunctionDecl.id).Nodup) (hsees : h.Sees frame clause) :
    (h.newClass ⟨className, clause, methodBindings frame methods⟩).2.Levels
      (h.newClass ⟨className, clause, methodBindings frame methods⟩).1
      ⟨className, clause, methodBindings frame methods⟩ := by
  have hframe := methodBindings_frame frame methods
  have hdeclared : ∀ b ∈ methodBindings frame methods, b.2.declaration ∈ methods :=
    methodBindings_each (M := fun f => f.declaration ∈ methods) fun f hf _ => hf
  constructor
  case level => exact fun b hb b' hb' => (hframe b hb).trans (hframe b' hb').symm
  case apart =>
    exact fun b hb b' hb' hid => List.inj_on_of_nodup_map hapart (hdeclared b hb) (hdeclared b' hb') hid
  case sees =>
    intro b hb up hup
    rw [hframe b hb] at hup
    have hsuper : h.ownValue? frame superName = some (.cls up) := hup
    cases clause with
    | none =>
      have hnone : h.ownValue? frame superName = none := hsees
      cases hnone.symm.trans hsuper
    | some up' =>
      have hcls : Value.cls up' = .cls up := Option.some.inj (hsees.1.symm.trans hsuper)
      exact congrArg some (Value.cls.inj hcls)
  case newer =>
    intro hderived id' c' hlt hc' b hb b' hb'
    obtain ⟨up, rfl⟩ := Option.isSome_iff_exists.mp hderived
    rw [(Extends.newClass h _).record id' hlt] at hc'
    rw [hframe b hb]
    exact hsees.2 b'.2 ⟨c', Array.mem_of_getElem? hc', b', hb', rfl⟩

/-- The receiver of a method that has been found is an instance of the superclass of the method's class. -/
theorem instanceOf_receiver (hh : h.Lineal) {f : Closure} {receiver : ObjectId} (hseeks : h.Seeks receiver id)
    (hmethod : h.method? id name = some f) (hsuper : h.ownValue? f.frame superName = some (.cls up)) :
    h.InstanceOf receiver up := by
  obtain ⟨owner, hoffers⟩ := exists_offers hmethod
  obtain ⟨c, hc, hlookup⟩ := hoffers.record
  have hsuperclass := (hh.classes owner c hc).sees _ (Bindings.mem_of_lookup hlookup) up hsuper
  exact (hh.instanceOf hseeks).above (hoffers.line.trans (.superclass hc hsuperclass))

theorem classes (hc : Change R h h') (hintact : h.Intact) (hh : h.Lineal) :
    ∀ id c, h'.class? id = some c → h'.Levels id c := by
  intro id c hid
  by_cases hold : id.index < h.classes.size
  · rw [hc.extends.record id hold] at hid
    exact hc.levels hintact hid (hh.classes id c hid)
  · have hlt := lt_of_class? hid
    cases hc with
    | arrays hheap =>
      rw [hheap] at hlt
      exact absurd hlt hold
    | newClass _ _ _ _ _ _ hapart hsees =>
      obtain rfl := eq_newClass hold hlt
      rw [class?_newClass] at hid
      obtain rfl := Option.some.inj hid
      exact levels_newClass hapart hsees
    | _ => exact absurd hlt hold

/-- Receivers fit the classes around them: in the scopes that were there, and in one that is made. -/
theorem receivers (hc : Change R h h') (hfounded : h.Founded) (hh : h.Lineal) {scope outer : FrameId}
    {receiver : ObjectId} (hparent : h'.parent? scope = some outer)
    (hthis : h'.ownValue? scope thisName = some (.object receiver))
    (hsuper : h'.ownValue? outer superName = some (.cls up)) : h'.InstanceOf receiver up := by
  have hthisSpecial : ¬LoxLang.Plain thisName := fun hplain => hplain.1 rfl
  have hsuperSpecial : ¬LoxLang.Plain superName := fun hplain => hplain.2 rfl
  refine hc.instanceOf ?_
  by_cases hold : scope.index < h.frames.size
  · rw [hc.extends.parent scope hold] at hparent
    have houter : outer.index < h.frames.size := Nat.lt_trans (hfounded.layered scope outer hparent) hold
    rw [hc.ownValue?_special hold hthisSpecial] at hthis
    rw [hc.ownValue?_special houter hsuperSpecial] at hsuper
    exact hh.receivers scope outer receiver up hparent hthis hsuper
  · have hlt : scope.index < h'.frames.size := lt_of_parent? hparent
    have hstays : ∀ {f : FrameId}, f.index < h.frames.size → h'.ownValue? f superName = h.ownValue? f superName :=
      fun hf => hc.ownValue?_special hf hsuperSpecial
    cases hc with
    | arrays hheap =>
      rw [hheap] at hlt
      exact absurd hlt hold
    | @newFrame _ parent bindings hlive _ hopens =>
      obtain rfl := eq_newFrame hold hlt
      rw [parent?, frame?_newFrame_self] at hparent
      obtain rfl : parent = outer := Option.some.inj hparent
      rw [ownValue?, frame?_newFrame_self] at hthis
      rw [hstays hlive] at hsuper
      cases hopens with
      | plain hnames => exact absurd (hnames thisName (Option.isSome_of_eq_some hthis)) hthisSpecial
      | superclass cls => cases hthis
      | receiver hseeks hmethod =>
        obtain rfl : _ = receiver := Value.object.inj (Option.some.inj hthis)
        exact instanceOf_receiver hh hseeks hmethod hsuper
    | declare => exact absurd (by simpa [define] using hlt) hold
    | assign => exact absurd (by simpa [define] using hlt) hold
    | _ => exact absurd hlt hold

theorem lineal (hc : Change R h h') (hintact : h.Intact) (hfounded : h.Founded) (hh : h.Lineal) : h'.Lineal :=
  ⟨hc.classes hintact hh, fun _ _ _ _ => hc.receivers hfounded hh⟩

end Change

namespace Changes

theorem instanceOf (hc : Changes R h h') {object : ObjectId} (hobject : h.InstanceOf object id) :
    h'.InstanceOf object id := by
  induction hc with
  | refl => exact hobject
  | tail _ hlast ih => exact hlast.instanceOf ih

theorem lineal (hc : Changes R h h') (hintact : h.Intact) (hfounded : h.Founded) (hh : h.Lineal) : h'.Lineal := by
  induction hc with
  | refl => exact hh
  | tail hfirst hlast ih =>
    exact hlast.lineal (Changes.intact hfirst hintact) (Changes.founded hfirst hfounded) ih

end Changes

end Heap

end LoxLang
