import LoxLang.Proofs.Evaluation.Lineage
import LoxLang.Proofs.Scope.Members
import LoxLang.Proofs.Session.WellFounded
import LoxLang.Proofs.Value.Equality

/-!
Equality of the values of a session. It is an equivalence of all values but the NaNs, and what it says of two
values never changes, since no scope gets another receiver. Looking a method up binds it in a new scope; two
such closures are equal if they are one method of one class, bound to one object, whenever they were looked up.
-/

namespace LoxLang

open Exec
open Heap (Changes)

/-! ### Equality while the heap changes -/

section

variable {R : Task → Machine → Prop} {h h' : Heap} {v w : Value} {f g : Closure}

/-- The scope of a closure that is there keeps its place and its receiver. -/
theorem Closure.Live.stays (hf : f.Live h) (hc : Changes R h h') :
    h'.parent? f.frame = h.parent? f.frame ∧ h'.ownValue? f.frame thisName = h.ownValue? f.frame thisName :=
  ⟨hc.extends.parent f.frame hf.frame, hc.ownValue?_special hf.frame fun hplain => hplain.1 rfl⟩

/-- Two values that are there are equal as long as they have ever been. -/
theorem Value.equal_changes (hc : Changes R h h') (hv : v.Live h) (hw : w.Live h) :
    v.equal h' w = v.equal h w := by
  have hclosures : ∀ {f g : Closure}, f.Live h → g.Live h → sameClosure h' f g = sameClosure h f g := by
    intro f g hf hg
    obtain ⟨hparent, hthis⟩ := hf.stays hc
    obtain ⟨hparent', hthis'⟩ := hg.stays hc
    unfold sameClosure
    rw [hparent, hthis, hparent', hthis']
  cases v with
  | function f =>
    cases w with
    | function g => exact hclosures hv hw
    | _ => rfl
  | _ => cases w <;> rfl

end

/-! ### Bound methods -/

/-- The closure is a method of the class, bound to an instance. -/
structure Closure.Binds (h : Heap) (f : Closure) (cls : ClassId) (d : FunctionDecl) (receiver : ObjectId) :
    Prop where
  method : ∃ c, h.class? cls = some c ∧ ∃ b ∈ c.methods, b.2.declaration = d ∧ h.parent? f.frame = some b.2.frame
  declaration : f.declaration = d
  this : h.ownValue? f.frame thisName = some (.object receiver)
  instanceOf : h.InstanceOf receiver cls

namespace Closure.Binds

variable {R : Task → Machine → Prop} {h h' : Heap} {f g : Closure} {cls cls' : ClassId} {d d' : FunctionDecl}
  {receiver receiver' : ObjectId} {name : String} {method : Closure}

/-- Binding makes a bound method. -/
theorem of_bind (hoffers : h.Offers name cls cls' method) (hreceiver : h.InstanceOf receiver cls)
    (hc : Changes R h (h.bind method receiver).2) :
    (h.bind method receiver).1.Binds (h.bind method receiver).2 cls' method.declaration receiver := by
  obtain ⟨c, hc', hlookup⟩ := hoffers.record
  constructor
  case method =>
    refine ⟨c, (hc.extends.record cls' (Heap.lt_of_class? hc')).trans hc', _, Bindings.mem_of_lookup hlookup, rfl, ?_⟩
    simp only [Heap.bind, Heap.parent?, Heap.frame?_newFrame_self]
    rfl
  case declaration => rfl
  case this =>
    simp only [Heap.bind, Heap.ownValue?, Heap.frame?_newFrame_self]
    rfl
  case instanceOf => exact hc.instanceOf (hreceiver.above hoffers.line)

theorem mono (hf : f.Binds h cls d receiver) (hc : Changes R h h') : f.Binds h' cls d receiver := by
  obtain ⟨⟨c, hcls, b, hb, hd, hparent⟩, hdeclaration, hthis, hreceiver⟩ := hf
  have hframe := Heap.lt_of_parent? hparent
  refine ⟨⟨c, ?_, b, hb, hd, ?_⟩, hdeclaration, ?_, hc.instanceOf hreceiver⟩
  · rw [hc.extends.record cls (Heap.lt_of_class? hcls), hcls]
  · rw [hc.extends.parent f.frame hframe, hparent]
  · rw [hc.ownValue?_special hframe fun hplain => hplain.1 rfl, hthis]

/-- Closures of one scope, or of scopes that bind alike, have one receiver and were bound in one scope. -/
theorem scopes (hf : f.Binds h cls d receiver) (hg : g.Binds h cls' d' receiver')
    (hframes : f.frame = g.frame ∨ Value.BindAlike h f.frame g.frame) :
    receiver = receiver' ∧ h.parent? f.frame = h.parent? g.frame := by
  rcases hframes with hsame | ⟨outer, object, hparent, hparent', hthis, hthis'⟩
  · refine ⟨?_, by rw [hsame]⟩
    have hobject := hg.this
    rw [← hsame, hf.this] at hobject
    exact Value.object.inj (Option.some.inj hobject)
  · have hobject := Value.object.inj (Option.some.inj (hf.this.symm.trans hthis))
    have hobject' := Value.object.inj (Option.some.inj (hg.this.symm.trans hthis'))
    exact ⟨hobject.trans hobject'.symm, hparent.trans hparent'.symm⟩

/-- Bound methods are equal if the declaration, the class and the receiver are the same. -/
theorem equal_iff (hh : h.Lineal) (hfounded : h.Founded) (hf : f.Binds h cls d receiver)
    (hg : g.Binds h cls' d' receiver') :
    (Value.function f).equal h (.function g) = true ↔ d = d' ∧ cls = cls' ∧ receiver = receiver' := by
  obtain ⟨c, hc, b, hb, hd, hparent⟩ := hf.method
  obtain ⟨c', hc', b', hb', hd', hparent'⟩ := hg.method
  change Value.sameClosure h f g = true ↔ _
  rw [Value.sameClosure_iff, hf.declaration, hg.declaration]
  constructor
  · rintro ⟨hid, hframes⟩
    obtain ⟨rfl, houter⟩ := hf.scopes hg hframes
    have hlevel : b.2.frame = b'.2.frame := by
      rw [hparent, hparent'] at houter
      exact Option.some.inj houter
    obtain rfl := hh.eq_of_frame hfounded hf.instanceOf hg.instanceOf hc hc' hb hb' hlevel
    obtain rfl := Option.some.inj (hc.symm.trans hc')
    have hdeclaration := (hh.classes cls c hc).apart b hb b' hb' (by rw [hd, hd', hid])
    exact ⟨by rw [← hd, ← hd', hdeclaration], rfl, rfl⟩
  · rintro ⟨rfl, rfl, rfl⟩
    obtain rfl := Option.some.inj (hc.symm.trans hc')
    refine ⟨rfl, .inr ⟨b.2.frame, receiver, hparent, ?_, hf.this, hg.this⟩⟩
    rw [hparent', (hh.classes cls c hc).level b' hb' b hb]

end Closure.Binds

/-! ### Looking methods up -/

/-- In the history `R`, the closure has come from looking a method up: the method of the nearest class that has
one, going up from the class of an object or from the one that `super` means. -/
inductive LooksUp (R : Task → Machine → Prop) (f : Closure) (owner : ClassId) :
    FunctionDecl → ObjectId → Prop where
  /-- A property of an object is read, through `this` or anything else, and it is no field. -/
  | property {m m' receiver object name method} (htask : R (.property (.object receiver) name) m)
    (hobject : m.heap.object? receiver = some object) (hfield : object.fields.lookup name.name = none)
    (hoffers : m.heap.Offers name.name object.cls owner method)
    (hrun : (Exec.property (.object receiver) name).run m = .ok (.function f) m') :
    LooksUp R f owner method.declaration receiver
  /-- A method of `super` is read in a method with a receiver. -/
  | super {m m' n id position name hops cls receiver method}
    (htask : R (.evaluate (n + 1) (.super id position name)) m)
    (hhops : m.hops.find? id = some (hops + 1))
    (hsuper : m.heap.getAt? m.current (hops + 1) superName = some (.cls cls))
    (hthis : m.heap.getAt? m.current hops thisName = some (.object receiver))
    (hoffers : m.heap.Offers name.name cls owner method)
    (hrun : (evaluate (n + 1) (.super id position name)).run m = .ok (.function f) m') :
    LooksUp R f owner method.declaration receiver

section

variable {R : Task → Machine → Prop} {m m' : Machine} {cls : ClassId} {name : Ident} {receiver : ObjectId}
  {v : Value}

theorem bindMethod_run {method : Closure} (hmethod : m.heap.method? cls name.name = some method) :
    (bindMethod cls name receiver).run m = .ok (.function (m.heap.bind method receiver).1)
      { m with heap := (m.heap.bind method receiver).2 } := by
  unfold bindMethod
  rw [EStateM.run_bind, EStateM.run_get]
  dsimp only
  rw [hmethod]
  rfl

theorem bindMethod_yields (hrun : (bindMethod cls name receiver).run m = .ok v m') :
    ∃ owner method, m.heap.Offers name.name cls owner method ∧ v = .function (m.heap.bind method receiver).1 := by
  cases hmethod : m.heap.method? cls name.name with
  | none =>
    unfold bindMethod at hrun
    rw [EStateM.run_bind, EStateM.run_get] at hrun
    dsimp only at hrun
    rw [hmethod] at hrun
    cases hrun
  | some method =>
    rw [bindMethod_run hmethod] at hrun
    obtain ⟨owner, hoffers⟩ := Heap.exists_offers hmethod
    cases hrun
    exact ⟨owner, method, hoffers, rfl⟩

/-- A property of an object is a field, or a method is looked up. -/
theorem property_yields (htask : R (.property (.object receiver) name) m)
    (hrun : (property (.object receiver) name).run m = .ok v m') :
    (∃ object, m.heap.object? receiver = some object ∧ object.fields.lookup name.name = some v) ∨
      ∃ f owner d, v = .function f ∧ LooksUp R f owner d receiver := by
  cases hobject : m.heap.object? receiver with
  | none =>
    unfold property at hrun
    rw [EStateM.run_bind, EStateM.run_get] at hrun
    dsimp only at hrun
    rw [hobject] at hrun
    cases hrun
  | some object =>
    cases hfield : object.fields.lookup name.name with
    | some value =>
      rw [Exec.property_run_field hobject hfield] at hrun
      cases hrun
      exact .inl ⟨object, rfl, hfield⟩
    | none =>
      have hmethod := hrun
      rw [Exec.property_run_method hobject hfield] at hmethod
      obtain ⟨owner, method, hoffers, rfl⟩ := bindMethod_yields hmethod
      exact .inr ⟨_, owner, _, rfl, .property htask hobject hfield hoffers hrun⟩

/-- What `super` yields has been looked up. -/
theorem super_yields {n : Nat} {id : NodeId} {position : Position}
    (htask : R (.evaluate (n + 1) (.super id position name)) m)
    (hrun : (evaluate (n + 1) (.super id position name)).run m = .ok v m') :
    ∃ f owner d receiver, v = .function f ∧ LooksUp R f owner d receiver := by
  have hmethod : (superMethod id position name).run m = .ok v m' := hrun
  unfold superMethod at hmethod
  rw [EStateM.run_bind, EStateM.run_get] at hmethod
  dsimp only at hmethod
  split at hmethod
  case h_1 => cases hmethod
  case h_2 hops hhops =>
    split at hmethod
    case h_2 => cases hmethod
    case h_1 cls hcls =>
      split at hmethod
      case h_2 => cases hmethod
      case h_1 receiver hreceiver =>
        obtain ⟨owner, method, hoffers, rfl⟩ := bindMethod_yields hmethod
        cases hops with
        | zero => cases hreceiver
        | succ inner => exact ⟨_, owner, _, receiver, rfl, .super htask hhops hcls hreceiver hoffers hrun⟩

end

/-! ### Sessions -/

namespace Session

variable {files : Files} {includeDir : Option String} {input : List InputLine} {clock : Clock}
  {regex : Pattern.Engine}
  {events : List Event} {m : Machine}

theorem initial_lineal : Machine.initialHeap.Lineal := by
  constructor
  case classes =>
    rintro ⟨i⟩ c hc
    cases i <;> cases hc
  case receivers =>
    rintro ⟨i⟩ outer receiver up hparent
    cases i <;> cases hparent

theorem Meets.lineal (hm : (new files includeDir input clock regex).Meets events m) : m.heap.Lineal := by
  have hs := new_intact files includeDir input clock regex
  exact (hm.course hs).2.1.lineal hs.heap .initial initial_lineal

end Session

/-- What has been looked up was bound in a state that the session passes through. -/
theorem LooksUp.binds {files : Files} {includeDir : Option String} {input : List InputLine} {clock : Clock}
    {regex : Pattern.Engine}
    {events : List Session.Event} {f : Closure} {owner : ClassId} {d : FunctionDecl} {receiver : ObjectId}
    (hf : LooksUp ((Session.new files includeDir input clock regex).Does events) f owner d receiver) :
    ∃ m, (Session.new files includeDir input clock regex).Meets events m ∧ f.Binds m.heap owner d receiver := by
  generalize hsession : Session.new files includeDir input clock regex = s at hf ⊢
  have hs : s.machine.Intact := hsession ▸ Session.new_intact files includeDir input clock regex
  have hpassed := (Session.follow_course hs (s.does_closed events) fun _ _ ht => ht).2
  -- Both lookups end by binding the method that is offered.
  have hbinds : ∀ {t m m' cls name method f receiver}, s.Does events t m → m.heap.Seeks receiver cls →
      m.heap.Offers name.name cls owner method →
        (bindMethod cls name receiver).run m = .ok (.function f) m' → t.after m = m' →
          s.Meets events m' ∧ f.Binds m'.heap owner method.declaration receiver := by
    intro t m m' cls name method f receiver ht hseeks hoffers hrun hafter
    have hchanges := ((hpassed t m ht).prepared.course (s.does_closed events) ht).1.changes
    have hlineal : m.heap.Lineal := (hsession ▸ Session.Meets.begins ht).lineal
    have hmeets := Session.Meets.ends ht
    rw [hafter] at hchanges hmeets
    rw [bindMethod_run hoffers.method?] at hrun
    cases hrun
    exact ⟨hmeets, .of_bind hoffers (hlineal.instanceOf hseeks) hchanges⟩
  cases hf with
  | property htask hobject hfield hoffers hrun =>
    have hmethod := hrun
    rw [Exec.property_run_method hobject hfield] at hmethod
    exact ⟨_, hbinds htask (.own hobject) hoffers hmethod (after_ok hrun)⟩
  | @super m m' _ id position name _ _ _ _ htask hhops hsuper hthis hoffers hrun =>
    have hmethod : (superMethod id position name).run m = .ok (.function f) m' := hrun
    rw [Exec.superMethod_run hhops hsuper hthis] at hmethod
    exact ⟨_, hbinds htask (seeks_super hsuper hthis) hoffers hmethod (after_ok hrun)⟩

/-! ### Equality in sessions -/

/-- The values that a comparison in the state says are equal, and what it does with NaNs. -/
structure Machine.Compares (m : Machine) : Prop where
  /-- This is what the operator does. -/
  operator : ∀ position (v w : Value), (binary .equal position v w).run m = .ok (.bool (v.equal m.heap w)) m
  symm : ∀ v w : Value, v.equal m.heap w = true → w.equal m.heap v = true
  trans : ∀ u v w : Value, u.equal m.heap v = true → v.equal m.heap w = true → u.equal m.heap w = true
  refl : ∀ v : Value, v.equal m.heap v = true ↔ ¬v.IsNaN
  kind : ∀ v w : Value, v.equal m.heap w = true → v.kind = w.kind

theorem Machine.compares (m : Machine) : m.Compares where
  operator _ _ _ := rfl
  symm v w hvw := Value.equal_comm m.heap v w ▸ hvw
  trans _ _ _ := Value.equal_trans
  refl _ := Value.equal_iff.trans Value.equals_self_iff
  kind _ _ hvw := (Value.equal_iff.mp hvw).kind_eq

/-- In all states that a session passes through, equality is an equivalence of the values that are no NaNs, and
never relates two kinds of values; two values that are there in two of the states are equal in both or in none.
Whatever reads of properties and of `super` yield is a field or a method that has been looked up; and two
methods that have been looked up, whenever and in whichever way, are equal just if they are one declaration of
one class, bound to one object. -/
theorem equality_is_stable (files : Files) (includeDir : Option String) (input : List InputLine)
    (clock : Clock) (regex : Pattern.Engine) (events : List Session.Event) :
    let s := Session.new files includeDir input clock regex
    (∀ m, s.Meets events m → m.Compares) ∧
      (∀ m m', s.Meets events m → s.Meets events m' → ∀ v w : Value, v.Live m.heap → w.Live m.heap →
        v.Live m'.heap → w.Live m'.heap → v.equal m'.heap w = v.equal m.heap w) ∧
      (∀ m receiver name v m', s.Does events (.property (.object receiver) name) m →
        (property (.object receiver) name).run m = .ok v m' →
          (∃ object, m.heap.object? receiver = some object ∧ object.fields.lookup name.name = some v) ∨
            ∃ f cls d, v = .function f ∧ LooksUp (s.Does events) f cls d receiver) ∧
      (∀ n id position name m v m', s.Does events (.evaluate (n + 1) (.super id position name)) m →
        (evaluate (n + 1) (.super id position name)).run m = .ok v m' →
          ∃ f cls d receiver, v = .function f ∧ LooksUp (s.Does events) f cls d receiver) ∧
      ∀ f cls d receiver f' cls' d' receiver', LooksUp (s.Does events) f cls d receiver →
        LooksUp (s.Does events) f' cls' d' receiver' → ∀ m, s.Meets events m → f.Live m.heap →
          f'.Live m.heap → ((Value.function f).equal m.heap (.function f') = true ↔
            d = d' ∧ cls = cls' ∧ receiver = receiver') := by
  intro s
  have hs := Session.new_intact files includeDir input clock regex
  have hstays : ∀ {m}, s.Meets events m → ∀ {v w : Value}, v.Live m.heap → w.Live m.heap →
      v.equal (s.follow events).2.machine.heap w = v.equal m.heap w := fun hm _ _ hv hw =>
    Value.equal_changes (hm.course hs).2.2 hv hw
  refine ⟨fun m _ => m.compares, ?_, ?_, ?_, ?_⟩
  · intro m m' hm hm' v w hv hw hv' hw'
    rw [← hstays hm hv hw, ← hstays hm' hv' hw']
  · exact fun m receiver name v m' ht hrun => property_yields ht hrun
  · exact fun n id position name m v m' ht hrun => super_yields ht hrun
  · intro f cls d receiver f' cls' d' receiver' hf hf' m hm hlive hlive'
    -- Both are bound methods in the end, and there they have been equal as long as they have been there.
    obtain ⟨m₁, hm₁, hbinds⟩ := hf.binds
    obtain ⟨m₂, hm₂, hbinds'⟩ := hf'.binds
    have hend : s.Meets events (s.follow events).2.machine := .between (List.append_nil events).symm
    have hfounded := (hend.course hs).2.1.founded .initial
    have hvalue : (Value.function f).Live m.heap := hlive
    have hvalue' : (Value.function f').Live m.heap := hlive'
    rw [← hstays hm hvalue hvalue']
    exact (hbinds.mono (hm₁.course hs).2.2).equal_iff hend.lineal hfounded (hbinds'.mono (hm₂.course hs).2.2)

end LoxLang
