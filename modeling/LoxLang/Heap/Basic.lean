import LoxLang.Value.Basic

/-!
The heap: the scopes, classes, instances and arrays of a running program, in the order in which they were
made. Nothing is ever removed, so an identity handed out once stays good; a scope's parent and a class's
superclass were there before it and never change.
-/

namespace LoxLang

/-- Named entries. Each name is there once. -/
abbrev Bindings (α : Type) := List (String × α)

/-- Replaces the entry of a name, or adds one behind the others. -/
def Bindings.put {α : Type} (name : String) (a : α) : Bindings α → Bindings α
  | [] => [(name, a)]
  | (k, b) :: rest => if k = name then (k, a) :: rest else (k, b) :: Bindings.put name a rest

/-- A scope: its own names, and the scope around it. -/
structure Frame where
  bindings : Bindings Value
  parent : Option FrameId
deriving Inhabited

structure ClassRecord where
  name : String
  superclass : Option ClassId
  methods : Bindings Closure
deriving Inhabited

structure ObjectRecord where
  cls : ClassId
  fields : Bindings Value
deriving Inhabited

structure Heap where
  frames : Array Frame
  classes : Array ClassRecord
  objects : Array ObjectRecord
  arrays : Array (Array Value)
deriving Inhabited

namespace Heap

def empty : Heap := ⟨#[], #[], #[], #[]⟩

/-! ### New things -/

def newFrame (h : Heap) (parent : Option FrameId) (bindings : Bindings Value) : FrameId × Heap :=
  (⟨h.frames.size⟩, { h with frames := h.frames.push ⟨bindings, parent⟩ })

def newClass (h : Heap) (record : ClassRecord) : ClassId × Heap :=
  (⟨h.classes.size⟩, { h with classes := h.classes.push record })

def newObject (h : Heap) (cls : ClassId) : ObjectId × Heap :=
  (⟨h.objects.size⟩, { h with objects := h.objects.push ⟨cls, []⟩ })

def newArray (h : Heap) (items : Array Value) : ArrayId × Heap :=
  (⟨h.arrays.size⟩, { h with arrays := h.arrays.push items })

/-! ### Scopes -/

def frame? (h : Heap) (id : FrameId) : Option Frame :=
  h.frames[id.index]?

def parent? (h : Heap) (id : FrameId) : Option FrameId :=
  (h.frame? id).bind Frame.parent

/-- The value that a scope itself has for a name. -/
def ownValue? (h : Heap) (id : FrameId) (name : String) : Option Value :=
  (h.frame? id).bind (·.bindings.lookup name)

/-- Binds a name in a scope, whether it was bound there before or not. -/
def define (h : Heap) (id : FrameId) (name : String) (v : Value) : Heap :=
  { h with frames := h.frames.modify id.index fun f => { f with bindings := f.bindings.put name v } }

/-- The scope a number of steps outwards. -/
def ancestor? (h : Heap) (id : FrameId) : Nat → Option FrameId
  | 0 => some id
  | hops + 1 => (h.parent? id).bind fun outer => h.ancestor? outer hops

/-- The value of a name in the scope a number of steps outwards. -/
def getAt? (h : Heap) (id : FrameId) (hops : Nat) (name : String) : Option Value :=
  (h.ancestor? id hops).bind fun f => h.ownValue? f name

/-- Changes the value of a name in the scope a number of steps outwards, if it is bound there. -/
def assignAt? (h : Heap) (id : FrameId) (hops : Nat) (name : String) (v : Value) : Option Heap :=
  match h.ancestor? id hops with
  | none => none
  | some f => if (h.ownValue? f name).isSome then some (h.define f name v) else none

/-- The nearest of at most `n` scopes, going outwards, that binds a name. -/
def ownerWithin? (h : Heap) (name : String) : Nat → FrameId → Option FrameId
  | 0, _ => none
  | n + 1, id =>
    if (h.ownValue? id name).isSome then some id
    else (h.parent? id).bind (h.ownerWithin? name n)

/-- The nearest scope, going outwards, that binds a name. Parents are older than their children, so
there are not more scopes on the way than in the heap. -/
def owner? (h : Heap) (id : FrameId) (name : String) : Option FrameId :=
  h.ownerWithin? name h.frames.size id

/-- The value of a name, looked for in a scope and those around it. -/
def get? (h : Heap) (id : FrameId) (name : String) : Option Value :=
  (h.owner? id name).bind fun f => h.ownValue? f name

/-- Changes the value of a name where it is bound nearest, if it is bound. -/
def assign? (h : Heap) (id : FrameId) (name : String) (v : Value) : Option Heap :=
  match h.owner? id name with
  | none => none
  | some f => some (h.define f name v)

/-! ### Classes and instances -/

def class? (h : Heap) (id : ClassId) : Option ClassRecord :=
  h.classes[id.index]?

def object? (h : Heap) (id : ObjectId) : Option ObjectRecord :=
  h.objects[id.index]?

/-- The method that the nearest of at most `n` classes, going up, declares under a name. -/
def methodWithin? (h : Heap) (name : String) : Nat → ClassId → Option Closure
  | 0, _ => none
  | n + 1, id =>
    (h.class? id).bind fun c =>
      match c.methods.lookup name with
      | some m => some m
      | none => c.superclass.bind (h.methodWithin? name n)

/-- The method that a class has under a name: its own, or else its superclass's. -/
def method? (h : Heap) (id : ClassId) (name : String) : Option Closure :=
  h.methodWithin? name h.classes.size id

/-- A method with its receiver: a closure whose scope binds `this`. -/
def bind (h : Heap) (m : Closure) (receiver : ObjectId) : Closure × Heap :=
  let (frame, h) := h.newFrame (some m.frame) [(thisName, .object receiver)]
  ({ m with frame := frame }, h)

def setField (h : Heap) (id : ObjectId) (name : String) (v : Value) : Heap :=
  { h with objects := h.objects.modify id.index fun o => { o with fields := o.fields.put name v } }

/-! ### Arrays -/

/-- The items of an array. -/
def items (h : Heap) (id : ArrayId) : Array Value :=
  h.arrays[id.index]?.getD #[]

def modifyArray (h : Heap) (id : ArrayId) (f : Array Value → Array Value) : Heap :=
  { h with arrays := h.arrays.modify id.index f }

end Heap

end LoxLang
