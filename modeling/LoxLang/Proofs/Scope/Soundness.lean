import LoxLang.Proofs.Outcome
import LoxLang.Proofs.Scope.Standing

/-!
Sound worlds: every function in the heap has a display that fits the heap and under which its body is
addressed, and every mention on record was looked up in the right scope. The steps of lexical evaluation
keep worlds sound; this module proves it for those that are not recursive.
-/

namespace LoxLang

open Resolver (hopsTo?)
open Lexical (receiverScope superclassScope parameterScope)

/-- What is known of the programs that a session has accepted: the identities their nodes were given lie
below `bound`, and `sites` tells the scopes around their functions. -/
structure Atlas where
  bound : Nat
  sites : NodeId → Option (List Scope)

/-- The notes on a program agree with the recorded distances and with what is known. -/
structure Atlas.Covers (a : Atlas) (hops : HopTable) (n : Notes) : Prop where
  lookups : ∀ l ∈ n.lookups, @LT.lt Nat _ l.reference.id a.bound ∧ hops.find? l.reference.id = l.hops
  sites : ∀ p ∈ n.sites, @LT.lt Nat _ p.1 a.bound ∧ a.sites p.1 = some p.2

theorem Atlas.Covers.find? {a : Atlas} {hops : HopTable} {n : Notes} (hn : a.Covers hops n)
    {scopes : List Scope} {r : Reference} (hr : n.Mentions scopes r) :
    hops.find? r.id = hopsTo? r.ident.name scopes :=
  (hn.lookups _ hr).2

/-! ### Exact mentions -/

/-- The variable is found in the nearest scope around the mention that has its name, and is bound there. A
mention of the receiver finds the scope of the class, and an object in it. -/
def Visit.ReadsExactly (v : Visit) (r : Reference) : Prop :=
  ∀ d, v.machine.hops.find? r.id = some d → ∃ layer x,
    v.display.nearest? r.ident.name = some layer ∧
      v.machine.heap.ancestor? v.machine.current d = some layer.frame ∧
        v.machine.heap.getAt? v.machine.current d r.ident.name = some x ∧
          (r.ident.name = thisName → layer.scope = receiverScope ∧ ∃ id, x = .object id)

/-- The variable is looked for in the nearest scope around the mention that has its name. It is bound there
unless the assignment stands in the initializer of the variable itself. -/
def Visit.AssignsExactly (v : Visit) (r : Reference) (x : Value) : Prop :=
  ∀ d, v.machine.hops.find? r.id = some d → ∃ layer,
    v.display.nearest? r.ident.name = some layer ∧
      v.machine.heap.ancestor? v.machine.current d = some layer.frame ∧
        (v.machine.heap.assignAt? v.machine.current d r.ident.name x = none ↔
          v.display.head?.bind (·.scope.lookup r.ident.name) = some .declared)

/-- The superclass is found in the nearest scope of a class that binds one, and the receiver just inside
it. -/
def Visit.SuperExactly (v : Visit) (id : NodeId) : Prop :=
  ∃ k outer inner cls object, v.machine.hops.find? id = some (k + 1) ∧
    (v.display.nearest? superName = some outer ∧ outer.scope = superclassScope ∧
      v.machine.heap.ancestor? v.machine.current (k + 1) = some outer.frame ∧
        v.machine.heap.getAt? v.machine.current (k + 1) superName = some (.cls cls)) ∧
    (v.display.nearest? thisName = some inner ∧ inner.scope = receiverScope ∧
      v.machine.heap.ancestor? v.machine.current k = some inner.frame ∧
        v.machine.heap.getAt? v.machine.current k thisName = some (.object object))

def Visit.Exact (v : Visit) : Prop :=
  match v.mention with
  | .read r => v.ReadsExactly r
  | .assign r x => v.AssignsExactly r x
  | .super id _ => v.SuperExactly id

/-! ### Sound worlds -/

/-- The displays that have been kept for functions. -/
abbrev Captured := List ((NodeId × FrameId) × Display)

/-- A function whose body is addressed under the display that was kept for it. -/
def KnownFunction (a : Atlas) (hops : HopTable) (captured : Captured) (f : Closure) : Prop :=
  ∃ d n, captured.lookup (f.declaration.id, f.frame) = some d ∧ a.Covers hops n ∧
    f.declaration.Addressed n d.scopes

/-- A method whose body is addressed under the display of its class, with a receiver. -/
def KnownMethod (a : Atlas) (hops : HopTable) (captured : Captured) (m : Closure) : Prop :=
  ∃ d n, captured.lookup (m.declaration.id, m.frame) = some d ∧ a.Covers hops n ∧
    a.sites m.declaration.id = some d.scopes ∧ m.declaration.Addressed n (receiverScope :: d.scopes)

/-- A display that may be kept for a function: it begins at the frame of the function, and its scopes are
those around the declaration, behind that of a receiver if the function is a bound method. -/
structure Atlas.Charts (a : Atlas) (h : Heap) (id : NodeId) (frame : FrameId) (d : Display) : Prop where
  frame : d.frame = frame
  enclosed : d.Enclosed h
  site : ∃ scopes, a.sites id = some scopes ∧ (d.scopes = scopes ∨ d.scopes = receiverScope :: scopes)

structure World.Sound (a : Atlas) (w : World) : Prop where
  nonempty : 0 < w.machine.heap.frames.size
  globals : w.machine.heap.parent? .globals = none
  holds : w.machine.heap.Holds (KnownFunction a w.machine.hops w.captured)
    (KnownMethod a w.machine.hops w.captured)
  charts : ∀ id frame d, w.captured.lookup (id, frame) = some d → a.Charts w.machine.heap id frame d
  visits : ∀ v ∈ w.visits, v.Exact

/-- What evaluation leaves as it was. The scope that code runs in may gain the given names. -/
structure World.Grows (names : List String) (w w' : World) : Prop where
  heap : Heap.Grows w.machine.current names w.machine.heap w'.machine.heap
  current : w'.machine.current = w.machine.current
  hops : w'.machine.hops = w.machine.hops
  captured : ∀ key d, w.captured.lookup key = some d → w'.captured.lookup key = some d

/-- The functions in a value are known in the world. -/
def World.Knows (a : Atlas) (w : World) (v : Value) : Prop :=
  v.Each (KnownFunction a w.machine.hops w.captured)

/-- The functions in what a statement returns are known in the world. -/
def World.KnowsResult (a : Atlas) (w : World) (c : Completion) : Prop :=
  ∀ v, c = .returned v → w.Knows a v

namespace World.Grows

variable {a : Atlas} {names names' : List String} {w w' w'' : World}

theorem refl (w : World) : w.Grows [] w :=
  ⟨.of_frames rfl, rfl, rfl, fun _ _ h => h⟩

theorem trans (h : w.Grows names w') (h' : w'.Grows names' w'') : w.Grows (names ++ names') w'' :=
  ⟨h.heap.trans (h.current ▸ h'.heap), h'.current.trans h.current, h'.hops.trans h.hops,
    fun key d hkey => h'.captured key d (h.captured key d hkey)⟩

theorem congr (h : w.Grows names w') (hnames : ∀ x, x ∈ names ↔ x ∈ names') : w.Grows names' w' :=
  ⟨⟨h.heap.size, h.heap.parent, fun g x hg => by rw [h.heap.bound g x hg, hnames], h.heap.special⟩,
    h.current, h.hops, h.captured⟩

theorem function (h : w.Grows names w') {f : Closure}
    (hf : KnownFunction a w.machine.hops w.captured f) :
    KnownFunction a w'.machine.hops w'.captured f := by
  obtain ⟨d, n, hd, hn, haddressed⟩ := hf
  exact ⟨d, n, h.captured _ d hd, h.hops ▸ hn, haddressed⟩

theorem method (h : w.Grows names w') {m : Closure}
    (hm : KnownMethod a w.machine.hops w.captured m) :
    KnownMethod a w'.machine.hops w'.captured m := by
  obtain ⟨d, n, hd, hn, hsite, haddressed⟩ := hm
  exact ⟨d, n, h.captured _ d hd, h.hops ▸ hn, hsite, haddressed⟩

theorem knows (h : w.Grows names w') {v : Value} (hv : w.Knows a v) : w'.Knows a v :=
  Value.Each.mono hv fun _ => h.function

end World.Grows

theorem Atlas.Charts.grows {a : Atlas} {h h' : Heap} {id : NodeId} {frame : FrameId} {d : Display}
    {f : FrameId} {names : List String} (hd : a.Charts h id frame d)
    (hgrows : Heap.Grows f names h h') : a.Charts h' id frame d :=
  ⟨hd.frame, hd.enclosed.grows hgrows, hd.site⟩

/-- A function has one display only. -/
theorem Atlas.Charts.unique {a : Atlas} {h : Heap} {id : NodeId} {frame : FrameId} {d d' : Display}
    (hglobals : h.parent? .globals = none) (hd : a.Charts h id frame d)
    (hd' : a.Charts h id frame d') : d = d' := by
  have hframes := hd.enclosed.chained.frames_unique hglobals hd'.enclosed.chained
    (hd.frame.trans hd'.frame.symm)
  have hlength : d.scopes.length = d'.scopes.length := by
    have := congrArg List.length hframes
    simpa [Display.scopes] using this
  have hscopes : d.scopes = d'.scopes := by
    obtain ⟨scopes, hsite, hor⟩ := hd.site
    obtain ⟨scopes', hsite', hor'⟩ := hd'.site
    obtain rfl : scopes = scopes' := by
      rw [hsite] at hsite'
      exact Option.some.inj hsite'
    rcases hor with h₁ | h₁ <;> rcases hor' with h₂ | h₂ <;> rw [h₁, h₂] at hlength ⊢ <;>
      simp at hlength
  clear hd hd' hlength
  induction d generalizing d' with
  | nil =>
    cases d' with
    | nil => rfl
    | cons => cases hframes
  | cons layer outer ih =>
    cases d' with
    | nil => cases hframes
    | cons layer' outer' =>
      obtain ⟨hframe, houter⟩ := List.cons.inj hframes
      obtain ⟨hscope, houter'⟩ := List.cons.inj hscopes
      obtain ⟨frame₁, scope₁⟩ := layer
      obtain ⟨frame₂, scope₂⟩ := layer'
      obtain rfl : frame₁ = frame₂ := hframe
      obtain rfl : scope₁ = scope₂ := hscope
      rw [ih houter houter']

namespace Lexical

open Account (lift inFrame)

/-! ### Safe computations -/

/-- From a sound world the computation ends in a sound world. If it has a value, only the given names are
new, and `good` holds; if it fails, the current scope and the distances are what they were. -/
def Safe {α : Type} (a : Atlas) (x : Lexical α) (w : World) (names : List String)
    (good : α → World → Prop) : Prop :=
  w.Sound a → Ends x w
    (fun v w' => w'.Sound a ∧ w.Grows names w' ∧ good v w')
    (fun _ w' => w'.Sound a ∧ w'.machine.current = w.machine.current ∧
      w'.machine.hops = w.machine.hops)

namespace Safe

variable {α β : Type} {a : Atlas} {x : Lexical α} {f : α → Lexical β} {w : World}
  {names names' : List String} {good : α → World → Prop} {good' : β → World → Prop}

theorem pure {v : α} (h : good v w) : Safe a (Pure.pure v) w [] good :=
  fun hw => Ends.pure ⟨hw, .refl w, h⟩

theorem bind (hx : Safe a x w names good)
    (hf : ∀ v w', w.Grows names w' → good v w' → Safe a (f v) w' names' good') :
    Safe a (x >>= f) w (names ++ names') good' := by
  intro hw
  refine Ends.bind (hx hw) ?_
  rintro v w' ⟨hw', hgrows, hgood⟩
  refine Ends.imp (hf v w' hgrows hgood hw') ?_ ?_
  · rintro u w'' ⟨hw'', hgrows', hgood'⟩
    exact ⟨hw'', hgrows.trans hgrows', hgood'⟩
  · rintro e w'' ⟨hw'', hcurrent, hhops⟩
    exact ⟨hw'', hcurrent.trans hgrows.current, hhops.trans hgrows.hops⟩

theorem imp {good₂ : α → World → Prop} (hx : Safe a x w names good)
    (h : ∀ v w', w.Grows names w' → good v w' → good₂ v w') : Safe a x w names good₂ :=
  fun hw => Ends.imp (hx hw) (fun v w' hv => ⟨hv.1, hv.2.1, h v w' hv.2.1 hv.2.2⟩) fun _ _ he => he

theorem congr (hx : Safe a x w names good) (hnames : ∀ y, y ∈ names ↔ y ∈ names') :
    Safe a x w names' good :=
  fun hw => Ends.imp (hx hw) (fun _ _ hv => ⟨hv.1, hv.2.1.congr hnames, hv.2.2⟩) fun _ _ he => he

theorem get_bind {f : World → Lexical β} (h : w.Sound a → Safe a (f w) w names good') :
    Safe a (get >>= f) w names good' :=
  fun hw => Ends.get_bind (h hw hw)

end Safe

/-- A computation in a scope of its own is safe if it leaves a sound world, whatever names the scope
gains. -/
def SafeInside {α : Type} (a : Atlas) (x : Lexical α) (w : World) (good : α → World → Prop) : Prop :=
  w.Sound a → Ends x w
    (fun v w' => w'.Sound a ∧ (∃ names, w.Grows names w') ∧ good v w')
    (fun _ w' => w'.Sound a ∧ w'.machine.current = w.machine.current ∧
      w'.machine.hops = w.machine.hops)

namespace SafeInside

variable {α β : Type} {a : Atlas} {x : Lexical α} {f : α → Lexical β} {w : World} {names : List String}
  {good : α → World → Prop} {good' : β → World → Prop}

theorem of_safe (hx : Safe a x w names good) : SafeInside a x w good :=
  fun hw => Ends.imp (hx hw) (fun _ _ hv => ⟨hv.1, ⟨names, hv.2.1⟩, hv.2.2⟩) fun _ _ he => he

theorem bind (hx : Safe a x w names good)
    (hf : ∀ v w', w.Grows names w' → good v w' → SafeInside a (f v) w' good') :
    SafeInside a (x >>= f) w good' := by
  intro hw
  refine Ends.bind (hx hw) ?_
  rintro v w' ⟨hw', hgrows, hgood⟩
  refine Ends.imp (hf v w' hgrows hgood hw') ?_ ?_
  · rintro u w'' ⟨hw'', ⟨names', hgrows'⟩, hgood'⟩
    exact ⟨hw'', ⟨names ++ names', hgrows.trans hgrows'⟩, hgood'⟩
  · rintro e w'' ⟨hw'', hcurrent, hhops⟩
    exact ⟨hw'', hcurrent.trans hgrows.current, hhops.trans hgrows.hops⟩

end SafeInside

/-- How a computation of the machine leaves it: with functions that were known before. -/
structure Leaves (a : Atlas) (names : List String) (w : World) (m : Machine) : Prop where
  heap : Heap.Grows w.machine.current names w.machine.heap m.heap
  current : m.current = w.machine.current
  hops : m.hops = w.machine.hops
  holds : m.heap.Holds (KnownFunction a w.machine.hops w.captured)
    (KnownMethod a w.machine.hops w.captured)

namespace Leaves

variable {a : Atlas} {names : List String} {w : World} {m : Machine}

theorem sound (h : Leaves a names w m) (hw : w.Sound a) : ({ w with machine := m } : World).Sound a := by
  refine ⟨Nat.lt_of_lt_of_le hw.nonempty h.heap.size, ?_, ?_, ?_, hw.visits⟩
  · exact (h.heap.parent .globals hw.nonempty).trans hw.globals
  · rw [h.hops]
    exact h.holds
  · exact fun id frame d hd => (hw.charts id frame d hd).grows h.heap

theorem grows (h : Leaves a names w m) : w.Grows names { w with machine := m } :=
  ⟨h.heap, h.current, h.hops, fun _ _ hd => hd⟩

/-- A machine that has not changed. -/
theorem refl (hw : w.Sound a) : Leaves a [] w w.machine :=
  ⟨.of_frames rfl, rfl, rfl, hw.holds⟩

end Leaves

section Lifts

variable {α : Type} {a : Atlas} {x : Exec α} {w : World} {names : List String} {good : α → World → Prop}

theorem lift_safe (hx : w.Sound a → Ends x w.machine
      (fun v m => Leaves a names w m ∧ good v { w with machine := m })
      (fun _ m => ∃ names', Leaves a names' w m)) :
    Safe a (lift x) w names good := by
  intro hw
  refine Account.lift_ends ((hx hw).imp ?_ ?_)
  · exact fun v m h => ⟨h.1.sound hw, h.1.grows, h.2⟩
  · rintro e m ⟨_, hleaves⟩
    exact ⟨hleaves.sound hw, hleaves.current, hleaves.hops⟩

theorem fail_safe (position : Position) (fault : RuntimeFault) :
    Safe a (lift (Exec.fail position fault : Exec α)) w names good :=
  lift_safe fun hw => Ends.throw ⟨[], .refl hw⟩

theorem exhausted_safe : Safe a (lift (Exec.exhausted : Exec α)) w names good :=
  lift_safe fun hw => Ends.throw ⟨[], .refl hw⟩

end Lifts

end Lexical

end LoxLang
