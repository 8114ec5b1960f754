import LoxLang.Machine
import LoxLang.Proofs.Heap.Scopes

/-!
Heaps whose links are well founded. The parent of a scope is older than the scope, and the superclass of a
class older than the class; so a walk along such links ends, at the outermost scope and at a class without a
superclass. The searches for a name and for a method are such walks, and the bounds that the heap puts on
them never cut them short.
-/

namespace LoxLang.Heap

/-- The superclass of a class, if it has one. -/
def superclass? (h : Heap) (id : ClassId) : Option ClassId :=
  (h.class? id).bind ClassRecord.superclass

/-- The class a number of steps up. -/
def classAbove? (h : Heap) (id : ClassId) : Nat → Option ClassId
  | 0 => some id
  | steps + 1 => (h.superclass? id).bind fun up => h.classAbove? up steps

/-- All scopes but the outermost one lie inside older ones, and superclasses are older than their classes.
-/
structure Founded (h : Heap) : Prop where
  globals : FrameId.globals.index < h.frames.size
  root : h.parent? .globals = none
  inside : ∀ f : FrameId, f.index < h.frames.size → f ≠ .globals →
    ∃ g, h.parent? f = some g ∧ g.index < f.index
  superclass : ∀ id up, h.superclass? id = some up → up.index < id.index

/-- The parent of a scope is older than the scope. -/
def Layered (h : Heap) : Prop :=
  ∀ f g, h.parent? f = some g → g.index < f.index

/-- What there is in the first heap stays in the second one, with the same links. -/
structure Extends (h h' : Heap) : Prop where
  frames : h.frames.size ≤ h'.frames.size
  classes : h.classes.size ≤ h'.classes.size
  parent : ∀ f : FrameId, f.index < h.frames.size → h'.parent? f = h.parent? f
  record : ∀ id : ClassId, id.index < h.classes.size → h'.class? id = h.class? id

/-! ### Searches without a bound -/

/-- The search for a name from a scope outwards comes to an end, with the scope that binds it or without
one. -/
inductive Finds (h : Heap) (name : String) : FrameId → Option FrameId → Prop where
  | here {f} (hbound : (h.ownValue? f name).isSome) : Finds h name f (some f)
  | outside {f g owner} (hbound : ¬(h.ownValue? f name).isSome) (hparent : h.parent? f = some g)
    (hrest : Finds h name g owner) : Finds h name f owner
  | nowhere {f} (hbound : ¬(h.ownValue? f name).isSome) (hparent : h.parent? f = none) : Finds h name f none

/-- The search for a method from a class upwards comes to an end, with the method or without one. -/
inductive Inherits (h : Heap) (name : String) : ClassId → Option Closure → Prop where
  | own {id c m} (hclass : h.class? id = some c) (hmethod : c.methods.lookup name = some m) :
    Inherits h name id (some m)
  | above {id c up m} (hclass : h.class? id = some c) (hmethod : c.methods.lookup name = none)
    (hsuperclass : c.superclass = some up) (hrest : Inherits h name up m) : Inherits h name id m
  | nowhere {id c} (hclass : h.class? id = some c) (hmethod : c.methods.lookup name = none)
    (hsuperclass : c.superclass = none) : Inherits h name id none

variable {h h' h'' : Heap} {f g : FrameId} {id : ClassId} {name : String}

theorem class?_isSome (hid : id.index < h.classes.size) : ∃ c, h.class? id = some c :=
  ⟨_, Array.getElem?_eq_getElem hid⟩

/-- The only class that there was not before is the new one. -/
theorem eq_newClass {c : ClassRecord} (hold : ¬id.index < h.classes.size)
    (hnew : id.index < (h.newClass c).2.classes.size) : id = (h.newClass c).1 := by
  obtain ⟨i⟩ := id
  have hsize : (h.newClass c).2.classes.size = h.classes.size + 1 := Array.size_push _
  rw [hsize] at hnew
  exact congrArg ClassId.mk (Nat.le_antisymm (Nat.le_of_lt_succ hnew) (Nat.le_of_not_lt hold))

/-- The only scope that there was not before is the new one. -/
theorem eq_newFrame {parent : Option FrameId} {bindings : Bindings Value} (hold : ¬f.index < h.frames.size)
    (hnew : f.index < (h.newFrame parent bindings).2.frames.size) : f = (h.newFrame parent bindings).1 := by
  obtain ⟨i⟩ := f
  have hsize : (h.newFrame parent bindings).2.frames.size = h.frames.size + 1 := Array.size_push _
  rw [hsize] at hnew
  exact congrArg FrameId.mk (Nat.le_antisymm (Nat.le_of_lt_succ hnew) (Nat.le_of_not_lt hold))

theorem lt_of_class? {c : ClassRecord} (hc : h.class? id = some c) : id.index < h.classes.size :=
  (Array.getElem?_eq_some_iff.mp hc).1

/-! ### Walks along links -/

/-- One more step out is the step out of the scope that the others lead to. -/
theorem ancestor?_succ (h : Heap) (f : FrameId) (steps : Nat) :
    h.ancestor? f (steps + 1) = (h.ancestor? f steps).bind h.parent? := by
  induction steps generalizing f with
  | zero => exact Option.bind_fun_some (h.parent? f)
  | succ steps ih =>
    rw [ancestor?, ancestor?, Option.bind_assoc]
    exact Option.bind_congr fun g _ => ih g

/-- Where parents are older, the search for a name ends, and a bound on it that lies above the place of the
scope does not show. -/
theorem Layered.finds_within (hh : h.Layered) (name : String) {n : Nat} (hn : f.index < n) :
    h.Finds name f (h.ownerWithin? name n f) := by
  induction n generalizing f with
  | zero => omega
  | succ n ih =>
    rw [ownerWithin?]
    split
    case isTrue hbound => exact .here hbound
    case isFalse hbound =>
      cases hparent : h.parent? f with
      | none => exact .nowhere hbound hparent
      | some g =>
        have hlt := hh f g hparent
        exact .outside hbound hparent (ih (by omega))

namespace Founded

/-- Every scope reaches the outermost one. -/
theorem reaches_globals (hh : h.Founded) (hf : f.index < h.frames.size) :
    ∃ steps, h.ancestor? f steps = some .globals := by
  obtain ⟨i⟩ := f
  induction i using Nat.strongRecOn with
  | ind i ih =>
    by_cases hroot : (⟨i⟩ : FrameId) = .globals
    · exact ⟨0, congrArg some hroot⟩
    · obtain ⟨⟨j⟩, hparent, hlt⟩ := hh.inside ⟨i⟩ hf hroot
      obtain ⟨steps, hsteps⟩ := ih j hlt (Nat.lt_trans hlt hf)
      refine ⟨steps + 1, ?_⟩
      rw [ancestor?, hparent]
      exact hsteps

/-- The outermost scope is the only one that lies in no other. -/
theorem parent?_eq_none (hh : h.Founded) (hf : f.index < h.frames.size) :
    h.parent? f = none ↔ f = .globals := by
  constructor
  · intro hnone
    apply Decidable.byContradiction
    intro hroot
    obtain ⟨g, hparent, -⟩ := hh.inside f hf hroot
    rw [hnone] at hparent
    cases hparent
  · rintro rfl
    exact hh.root

/-- Every line of superclasses ends. -/
theorem lineage_ends (hh : h.Founded) (id : ClassId) : ∃ steps, h.classAbove? id steps = none := by
  obtain ⟨i⟩ := id
  induction i using Nat.strongRecOn with
  | ind i ih =>
    cases hup : h.superclass? ⟨i⟩ with
    | none =>
      refine ⟨1, ?_⟩
      rw [classAbove?, hup]
      rfl
    | some up =>
      obtain ⟨steps, hsteps⟩ := ih up.index (hh.superclass _ _ hup)
      refine ⟨steps + 1, ?_⟩
      rw [classAbove?, hup]
      exact hsteps

theorem layered (hh : h.Founded) : h.Layered := by
  intro f g hparent
  have hroot : f ≠ .globals := by
    rintro rfl
    cases hh.root.symm.trans hparent
  obtain ⟨g', hg', hlt⟩ := hh.inside f (lt_of_parent? hparent) hroot
  obtain rfl : g = g' := Option.some.inj (hparent.symm.trans hg')
  exact hlt

/-- The search for a name ends, and the heap's bound on it does not show. -/
theorem finds (hh : h.Founded) (name : String) (hf : f.index < h.frames.size) :
    h.Finds name f (h.owner? f name) :=
  hh.layered.finds_within name hf

theorem inherits_within (hh : h.Founded) (name : String) {n : Nat} (hid : id.index < h.classes.size)
    (hn : id.index < n) : h.Inherits name id (h.methodWithin? name n id) := by
  induction n generalizing id with
  | zero => omega
  | succ n ih =>
    obtain ⟨c, hc⟩ := class?_isSome hid
    rw [methodWithin?, hc, Option.bind_some]
    cases hmethod : c.methods.lookup name with
    | some m => exact .own hc hmethod
    | none =>
      cases hup : c.superclass with
      | none => exact .nowhere hc hmethod hup
      | some up =>
        have hlt : up.index < id.index := by
          refine hh.superclass id up ?_
          rw [superclass?, hc]
          exact hup
        exact .above hc hmethod hup (ih (by omega) (by omega))

/-- The search for a method ends, and the heap's bound on it does not show. -/
theorem inherits (hh : h.Founded) (name : String) (hid : id.index < h.classes.size) :
    h.Inherits name id (h.method? id name) :=
  hh.inherits_within name hid hid

end Founded

/-! ### Links that stay -/

namespace Extends

theorem refl (h : Heap) : h.Extends h :=
  ⟨Nat.le_refl _, Nat.le_refl _, fun _ _ => rfl, fun _ _ => rfl⟩

theorem trans (h₁ : h.Extends h') (h₂ : h'.Extends h'') : h.Extends h'' where
  frames := Nat.le_trans h₁.frames h₂.frames
  classes := Nat.le_trans h₁.classes h₂.classes
  parent f hf := (h₂.parent f (Nat.lt_of_lt_of_le hf h₁.frames)).trans (h₁.parent f hf)
  record id hid := (h₂.record id (Nat.lt_of_lt_of_le hid h₁.classes)).trans (h₁.record id hid)

/-- Two heaps that are both extended to a third one agree on what there is in both of them. -/
theorem agree (h₁ : h.Extends h'') (h₂ : h'.Extends h'') :
    (∀ f : FrameId, f.index < h.frames.size → f.index < h'.frames.size → h'.parent? f = h.parent? f) ∧
      ∀ id : ClassId, id.index < h.classes.size → id.index < h'.classes.size → h'.class? id = h.class? id :=
  ⟨fun f hf hf' => (h₂.parent f hf').symm.trans (h₁.parent f hf),
    fun id hid hid' => (h₂.record id hid').symm.trans (h₁.record id hid)⟩

/-- A scope's ancestors stay where they are. -/
theorem ancestor? (hh : h.Extends h') {steps : Nat} (hancestor : h.ancestor? f steps = some g) :
    h'.ancestor? f steps = some g := by
  induction steps generalizing f with
  | zero => exact hancestor
  | succ steps ih =>
    obtain ⟨outer, hparent, hrest⟩ := Option.bind_eq_some_iff.mp hancestor
    rw [Heap.ancestor?, hh.parent f (lt_of_parent? hparent), hparent]
    exact ih hrest

/-- Neither scopes nor classes are touched. -/
theorem of_same (hframes : h'.frames = h.frames) (hclasses : h'.classes = h.classes) : h.Extends h' where
  frames := Nat.le_of_eq (congrArg Array.size hframes).symm
  classes := Nat.le_of_eq (congrArg Array.size hclasses).symm
  parent f _ := by rw [parent?, parent?, frame?, frame?, hframes]
  record id _ := by rw [class?, class?, hclasses]

theorem define (h : Heap) (f : FrameId) (name : String) (v : Value) : h.Extends (h.define f name v) where
  frames := by simp [Heap.define]
  classes := Nat.le_refl _
  parent g _ := parent?_define h f g name v
  record _ _ := rfl

theorem newFrame (h : Heap) (parent : Option FrameId) (bindings : Bindings Value) :
    h.Extends (h.newFrame parent bindings).2 where
  frames := by simp [Heap.newFrame]
  classes := Nat.le_refl _
  parent f hf := by rw [parent?, parent?, frame?_newFrame parent bindings hf]
  record _ _ := rfl

theorem newClass (h : Heap) (c : ClassRecord) : h.Extends (h.newClass c).2 where
  frames := Nat.le_refl _
  classes := by simp [Heap.newClass]
  parent _ _ := rfl
  record id hid := by
    simp only [class?, Heap.newClass, Array.getElem?_push]
    rw [if_neg (Nat.ne_of_lt hid)]

end Extends

/-! ### What keeps heaps well founded -/

namespace Founded

/-- Neither scopes nor classes are made. -/
theorem of_extends (hh : h.Founded) (hextends : h.Extends h') (hframes : h'.frames.size = h.frames.size)
    (hclasses : h'.classes.size = h.classes.size) : h'.Founded where
  globals := hframes ▸ hh.globals
  root := (hextends.parent .globals hh.globals).trans hh.root
  inside f hf hroot := by
    obtain ⟨g, hparent, hlt⟩ := hh.inside f (hframes ▸ hf) hroot
    exact ⟨g, (hextends.parent f (hframes ▸ hf)).trans hparent, hlt⟩
  superclass id up hup := by
    obtain ⟨c, hc, hsuperclass⟩ := Option.bind_eq_some_iff.mp hup
    refine hh.superclass id up ?_
    rw [superclass?, ← hextends.record id (hclasses ▸ lt_of_class? hc), hc]
    exact hsuperclass

theorem newFrame (hh : h.Founded) {parent : FrameId} (hparent : parent.index < h.frames.size)
    (bindings : Bindings Value) : (h.newFrame (some parent) bindings).2.Founded := by
  have hextends := Extends.newFrame h (some parent) bindings
  constructor
  case globals => exact Nat.lt_of_lt_of_le hh.globals hextends.frames
  case root => exact (hextends.parent .globals hh.globals).trans hh.root
  case inside =>
    intro f hf hroot
    by_cases hold : f.index < h.frames.size
    · obtain ⟨g, hg, hlt⟩ := hh.inside f hold hroot
      exact ⟨g, (hextends.parent f hold).trans hg, hlt⟩
    · obtain rfl := eq_newFrame hold hf
      refine ⟨parent, ?_, hparent⟩
      rw [parent?, frame?_newFrame_self]
      rfl
  case superclass => exact hh.superclass

theorem newClass (hh : h.Founded) {c : ClassRecord} (hc : ∀ up, c.superclass = some up → up.index < h.classes.size) :
    (h.newClass c).2.Founded := by
  have hextends := Extends.newClass h c
  refine ⟨hh.globals, hh.root, hh.inside, fun id up hup => ?_⟩
  by_cases hold : id.index < h.classes.size
  · rw [superclass?, hextends.record id hold] at hup
    exact hh.superclass id up hup
  · obtain ⟨c', hc', hsuperclass⟩ := Option.bind_eq_some_iff.mp hup
    simp only [class?, Heap.newClass, Array.getElem?_push] at hc'
    split at hc'
    case isTrue =>
      obtain rfl := Option.some.inj hc'
      have := hc up hsuperclass
      omega
    case isFalse => exact absurd (Array.getElem?_eq_some_iff.mp hc').1 hold

end Founded

end LoxLang.Heap
