import LoxLang.Proofs.Native.Parametric
import LoxLang.Value.Equality

/-!
The classes, the instances and the arrays of two heaps that differ in code. Everything in the one heap stands
at the same index as in the other, so identities need no translation; only closures and the places of array
methods differ, as given relations say. Nothing is said of scopes here. What is found in such heaps
corresponds, and values that correspond print as the same text.
-/

namespace LoxLang

/-- The same names in the same order, with related entries. -/
def Bindings.Alike {α β : Type} (R : α → β → Prop) (bs : Bindings α) (cs : Bindings β) : Prop :=
  List.Forall₂ (fun b c => b.1 = c.1 ∧ R b.2 c.2) bs cs

/-! ### Bindings and options -/

namespace Bindings.Alike

variable {α β : Type} {R : α → β → Prop} {bs : Bindings α} {cs : Bindings β}

theorem lookup (h : Bindings.Alike R bs cs) (name : String) :
    Option.Rel R (bs.lookup name) (cs.lookup name) := by
  induction h with
  | nil => exact .none
  | @cons b c _ _ hbc _ ih =>
    obtain ⟨k, a⟩ := b
    obtain ⟨_, a'⟩ := c
    obtain ⟨rfl, ha⟩ := hbc
    rw [List.lookup_cons, List.lookup_cons]
    cases name == k with
    | true => exact .some ha
    | false => exact ih

theorem put (h : Bindings.Alike R bs cs) (name : String) {a : α} {b : β} (hab : R a b) :
    Bindings.Alike R (bs.put name a) (cs.put name b) := by
  induction h with
  | nil => exact .cons ⟨rfl, hab⟩ .nil
  | @cons e e' _ _ he hrest ih =>
    obtain ⟨k, c⟩ := e
    obtain ⟨_, c'⟩ := e'
    obtain ⟨rfl, hc⟩ := he
    unfold Bindings.put
    split
    · exact .cons ⟨rfl, hab⟩ hrest
    · exact .cons ⟨rfl, hc⟩ ih

theorem imp {R' : α → β → Prop} (h : Bindings.Alike R bs cs) (hR : ∀ a b, R a b → R' a b) :
    Bindings.Alike R' bs cs :=
  List.Forall₂.imp (fun _ _ hbc => ⟨hbc.1, hR _ _ hbc.2⟩) h

end Bindings.Alike

theorem rel_bind {α β γ δ : Type} {R : α → β → Prop} {Q : γ → δ → Prop} {a : Option α} {b : Option β}
    {f : α → Option γ} {g : β → Option δ} (hab : Option.Rel R a b)
    (hfg : ∀ x y, R x y → Option.Rel Q (f x) (g y)) : Option.Rel Q (a.bind f) (b.bind g) := by
  cases hab with
  | none => exact .none
  | some h => exact hfg _ _ h

theorem rel_isSome {α β : Type} {R : α → β → Prop} {a : Option α} {b : Option β}
    (hab : Option.Rel R a b) : a.isSome = b.isSome := by
  cases hab <;> rfl

theorem rel_eq {α : Type} {a b : Option α} (hab : Option.Rel (· = ·) a b) : a = b := by
  cases hab with
  | none => rfl
  | some h => rw [h]

/-! ### Records -/

/-- Classes that differ in the closures of their methods. -/
structure ClassRecord.Related (M : Closure → Closure → Prop) (c d : ClassRecord) : Prop where
  name : c.name = d.name
  superclass : c.superclass = d.superclass
  methods : Bindings.Alike M c.methods d.methods

/-- Instances of one class that differ in the values of their fields. -/
structure ObjectRecord.Related (R : Value → Value → Prop) (o p : ObjectRecord) : Prop where
  cls : o.cls = p.cls
  fields : Bindings.Alike R o.fields p.fields

/-- The heaps are the same apart from their scopes, and apart from closures and places: closures in values
are related by `C`, those of the methods of classes by `M`, and places by `P`. -/
structure Heap.ContentsRelated (C M : Closure → Closure → Prop) (P : Position → Position → Prop)
    (h h' : Heap) : Prop where
  classes : List.Forall₂ (ClassRecord.Related M) h.classes.toList h'.classes.toList
  objects : List.Forall₂ (ObjectRecord.Related (Value.Related C P)) h.objects.toList h'.objects.toList
  arrays : h.ArraysRelated C P h'

namespace Heap.ContentsRelated

variable {C M : Closure → Closure → Prop} {P : Position → Position → Prop} {h h' : Heap} {v w : Value}

/-! ### What is found -/

theorem class? (hh : ContentsRelated C M P h h') (id : ClassId) :
    Option.Rel (ClassRecord.Related M) (h.class? id) (h'.class? id) :=
  getElem?_related hh.classes id.index

theorem object? (hh : ContentsRelated C M P h h') (id : ObjectId) :
    Option.Rel (ObjectRecord.Related (Value.Related C P)) (h.object? id) (h'.object? id) :=
  getElem?_related hh.objects id.index

theorem method? (hh : ContentsRelated C M P h h') (id : ClassId) (name : String) :
    Option.Rel M (h.method? id name) (h'.method? id name) := by
  unfold Heap.method?
  rw [size_related hh.classes]
  generalize h'.classes.size = n
  induction n generalizing id with
  | zero => exact .none
  | succ n ih =>
    refine rel_bind (hh.class? id) fun c d hcd => ?_
    have hown := hcd.methods.lookup name
    generalize c.methods.lookup name = own at hown
    generalize d.methods.lookup name = own' at hown
    cases hown with
    | some h => exact .some h
    | none =>
      simp only [hcd.superclass]
      cases d.superclass with
      | none => exact .none
      | some outer => exact ih outer

/-! ### What is made and changed -/

theorem newClass (hh : ContentsRelated C M P h h') {c d : ClassRecord} (hcd : c.Related M d) :
    (h.newClass c).1 = (h'.newClass d).1 ∧ ContentsRelated C M P (h.newClass c).2 (h'.newClass d).2 := by
  refine ⟨?_, { hh with classes := push_related hh.classes hcd }⟩
  rw [Heap.newClass, Heap.newClass, size_related hh.classes]

theorem newObject (hh : ContentsRelated C M P h h') (id : ClassId) :
    (h.newObject id).1 = (h'.newObject id).1 ∧
      ContentsRelated C M P (h.newObject id).2 (h'.newObject id).2 := by
  refine ⟨?_, { hh with objects := push_related hh.objects ⟨rfl, .nil⟩ }⟩
  rw [Heap.newObject, Heap.newObject, size_related hh.objects]

theorem setField (hh : ContentsRelated C M P h h') (id : ObjectId) (name : String)
    (hvw : v.Related C P w) : ContentsRelated C M P (h.setField id name v) (h'.setField id name w) :=
  { hh with
    objects := modify_related hh.objects id.index fun _ _ hop => ⟨hop.cls, hop.fields.put name hvw⟩ }

theorem imp {C' M' : Closure → Closure → Prop} {P' : Position → Position → Prop}
    (hh : ContentsRelated C M P h h') (hC : ∀ f g, C f g → C' f g) (hM : ∀ f g, M f g → M' f g)
    (hP : ∀ p q, P p q → P' p q) : ContentsRelated C' M' P' h h' := by
  have hvalue : ∀ v w : Value, v.Related C P w → v.Related C' P' w := fun _ _ hvw => hvw.imp hC hP
  refine ⟨hh.classes.imp fun c d hcd => ?_, hh.objects.imp fun o p hop => ?_,
    hh.arrays.imp fun a b hab => hab.imp hvalue⟩
  · exact ⟨hcd.name, hcd.superclass, hcd.methods.imp hM⟩
  · exact ⟨hop.cls, hop.fields.imp hvalue⟩

/-! ### What programs see of values -/

theorem sameObject {a b a' b' : Option Value} (ha : Option.Rel (Value.Related C P) a a')
    (hb : Option.Rel (Value.Related C P) b b') : Value.sameObject a b = Value.sameObject a' b' := by
  cases ha with
  | none => rfl
  | some ha =>
    cases ha with
    | function => rfl
    | arrayMethod => rfl
    | data =>
      rename_i v _
      cases hb with
      | none => rfl
      | some hb =>
        cases hb with
        | data => rfl
        | function => cases v <;> rfl
        | arrayMethod => cases v <;> rfl

/-- Equality does not tell related values apart if it does not tell related closures apart. -/
theorem equalAgrees (hsame : ∀ f f' g g', C f f' → C g g' →
    Value.sameClosure h f g = Value.sameClosure h' f' g') : Value.EqualAgrees C P h h' := by
  have hdata : ∀ {v w : Value}, v.IsData → v.equal h w = v.equal h' w := by
    intro v w hv
    unfold Value.equal
    split <;> first | rfl | cases hv
  intro v v' w w' hv hw
  cases hv with
  | function hf =>
    cases hw with
    | function hg => exact hsame _ _ _ _ hf hg
    | arrayMethod => rfl
    | data => cases w <;> first | rfl | contradiction
  | arrayMethod =>
    cases hw with
    | function => rfl
    | arrayMethod => rfl
    | data => cases w <;> rfl
  | data hv =>
    cases hw with
    | data => exact hdata hv
    | function => cases v <;> first | rfl | cases hv
    | arrayMethod => cases v <;> rfl

theorem className (hh : ContentsRelated C M P h h') (id : ClassId) :
    (h.class? id).map ClassRecord.name = (h'.class? id).map ClassRecord.name := by
  have hclass := hh.class? id
  generalize h.class? id = c at hclass
  generalize h'.class? id = d at hclass
  cases hclass with
  | none => rfl
  | some hcd => exact congrArg some hcd.name

theorem objectClass (hh : ContentsRelated C M P h h') (id : ObjectId) :
    ((h.object? id).bind fun o => h.class? o.cls).map ClassRecord.name =
      ((h'.object? id).bind fun o => h'.class? o.cls).map ClassRecord.name := by
  have hobject := hh.object? id
  generalize h.object? id = o at hobject
  generalize h'.object? id = p at hobject
  cases hobject with
  | none => rfl
  | some hop =>
    simp only [Option.bind_some, hop.cls]
    exact hh.className _

section Text

variable (hname : ∀ f g, C f g → f.declaration.name.name = g.declaration.name.name)

include hname

theorem scalarText (hh : ContentsRelated C M P h h') (hvw : v.Related C P w) :
    v.scalarText h = w.scalarText h' := by
  cases hvw with
  | function hfg => simp only [Value.scalarText, hname _ _ hfg]
  | arrayMethod => rfl
  | data =>
    cases v with
    | cls id => simp only [Value.scalarText, hh.className]
    | object id => simp only [Value.scalarText, hh.objectClass]
    | _ => rfl

theorem itemText (hh : ContentsRelated C M P h h') (nested : ArrayId → String) (hvw : v.Related C P w) :
    v.itemText h nested = w.itemText h' nested := by
  have hscalar := hh.scalarText hname hvw
  cases hvw with
  | data =>
    cases v with
    | string s => rfl
    | array id => rfl
    | _ => exact hscalar
  | _ => exact hscalar

theorem arrayText (hh : ContentsRelated C M P h h') (n : Nat) (around : List ArrayId) (id : ArrayId) :
    Value.arrayText h n around id = Value.arrayText h' n around id := by
  induction n generalizing around id with
  | zero => rfl
  | succ n ih =>
    have hnested : Value.arrayText h n (id :: around) = Value.arrayText h' n (id :: around) :=
      funext (ih (id :: around))
    have hparts : ∀ {vs ws : List Value}, List.Forall₂ (Value.Related C P) vs ws →
        vs.map (Value.itemText h (Value.arrayText h' n (id :: around))) =
          ws.map (Value.itemText h' (Value.arrayText h' n (id :: around))) := by
      intro vs ws hall
      induction hall with
      | nil => rfl
      | cons hvw _ ih => rw [List.map_cons, List.map_cons, hh.itemText hname _ hvw, ih]
    unfold Value.arrayText
    rw [hnested, hparts (hh.arrays.items id)]

/-- Values that are related print as the same text, if closures that are related have one name. -/
theorem text (hh : ContentsRelated C M P h h') (hvw : v.Related C P w) : v.text h = w.text h' := by
  have hscalar := hh.scalarText hname hvw
  cases hvw with
  | data =>
    cases v with
    | array id =>
      simp only [Value.text, hh.arrays.size]
      exact hh.arrayText hname _ _ id
    | _ => exact hscalar
  | _ => exact hscalar

end Text

end Heap.ContentsRelated

end LoxLang
