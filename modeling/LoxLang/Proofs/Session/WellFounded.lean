import LoxLang.Proofs.Session.Passage

/-!
The heap of a session stays well founded, in all states that the session passes through and whatever fails
there. Links from scopes to the scopes around them and from classes to their superclasses never change, and
walks along them end.
-/

namespace LoxLang

/-- Nothing in the machine dangles, and all walks along its links end. `R` tells which tasks have begun in
which states. -/
structure Machine.Grounded (R : Task → Machine → Prop) (m : Machine) : Prop where
  current : m.current.index < m.heap.frames.size
  /-- The closures that values refer to are there, bound methods included, and so are the classes. -/
  stored : ∀ v, m.heap.Stores v → v.Live m.heap
  methods : ∀ f, m.heap.HasMethod f → f.Live m.heap
  outwards : ∀ f : FrameId, f.index < m.heap.frames.size →
    ∃ steps, m.heap.ancestor? f steps = some .globals
  outermost : ∀ f : FrameId, f.index < m.heap.frames.size → (m.heap.parent? f = none ↔ f = .globals)
  upwards : ∀ id, ∃ steps, m.heap.classAbove? id steps = none
  /-- The scope in which a class was declared is around all its methods. -/
  made : ∀ id c, m.heap.class? id = some c → m.heap.Made R id c
  /-- A method that is bound to a receiver stays inside its scope. -/
  bound : ∀ f receiver, m.heap.HasMethod f →
    (m.heap.bind f receiver).2.parent? (m.heap.bind f receiver).1.frame = some f.frame
  finds : ∀ (f : FrameId) name, f.index < m.heap.frames.size → m.heap.Finds name f (m.heap.owner? f name)
  inherits : ∀ (id : ClassId) name, id.index < m.heap.classes.size →
    m.heap.Inherits name id (m.heap.method? id name)

namespace Heap

theorem Founded.initial : Machine.initialHeap.Founded := by
  have hroot : ∀ f : FrameId, Machine.initialHeap.parent? f = none := fun ⟨i⟩ => by cases i <;> rfl
  constructor
  case globals => exact Nat.zero_lt_one
  case root => exact hroot .globals
  case inside =>
    intro f hf hglobals
    have hzero : f = .globals := congrArg FrameId.mk (Nat.lt_one_iff.mp hf)
    exact absurd hzero hglobals
  case superclass =>
    rintro ⟨i⟩ up hup
    cases i <;> cases hup

end Heap

namespace Session

variable {files : Files} {includeDir : Option String} {input : List InputLine} {clock : Clock}
  {regex : Pattern.Engine}
  {events : List Event} {m : Machine}

theorem Meets.grounded (hm : (new files includeDir input clock regex).Meets events m) :
    m.Grounded ((new files includeDir input clock regex).Does events) := by
  obtain ⟨hintact, hchanges, -⟩ := hm.course (new_intact files includeDir input clock regex)
  have hfounded : m.heap.Founded := hchanges.founded .initial
  constructor
  case current => exact hintact.current
  case stored => exact hintact.heap.stored
  case methods => exact hintact.heap.methods
  case outwards => exact fun f hf => hfounded.reaches_globals hf
  case outermost => exact fun f hf => hfounded.parent?_eq_none hf
  case upwards => exact hfounded.lineage_ends
  case made =>
    refine hchanges.made ?_
    rintro ⟨i⟩ c hc
    cases i <;> cases hc
  case bound =>
    intro f receiver _
    simp only [Heap.bind, Heap.parent?, Heap.frame?_newFrame_self]
    rfl
  case finds => exact fun f name hf => hfounded.finds name hf
  case inherits => exact fun id name hid => hfounded.inherits name hid

end Session

/-- In all states that a session passes through, nothing dangles and walks along links end, also from what
tasks have been given; and no link of a scope or a class ever changes: whatever is there in two of the
states, has the same links in both. -/
theorem heap_stays_well_founded (files : Files) (includeDir : Option String) (input : List InputLine)
    (clock : Clock) (regex : Pattern.Engine) (events : List Session.Event) :
    let s := Session.new files includeDir input clock regex
    (∀ m, s.Meets events m → m.Grounded (s.Does events)) ∧
      (∀ t m, s.Does events t m → ∀ v ∈ t.given, v.Live m.heap) ∧
        ∀ m m', s.Meets events m → s.Meets events m' →
          (∀ f : FrameId, f.index < m.heap.frames.size → f.index < m'.heap.frames.size →
            m'.heap.parent? f = m.heap.parent? f) ∧
          ∀ id : ClassId, id.index < m.heap.classes.size → id.index < m'.heap.classes.size →
            m'.heap.class? id = m.heap.class? id := by
  intro s
  have hs := Session.new_intact files includeDir input clock regex
  refine ⟨fun m hm => hm.grounded, fun t m ht => ?_, fun m m' hm hm' => ?_⟩
  · have hcourse := Session.follow_course hs (s.does_closed events) fun _ _ ht => ht
    exact (hcourse.2 t m ht).prepared.given
  · exact (hm.course hs).2.2.extends.agree (hm'.course hs).2.2.extends

end LoxLang
