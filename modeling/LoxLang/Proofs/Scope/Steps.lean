import LoxLang.Proofs.Evaluation.Kept
import LoxLang.Proofs.Scope.Soundness

/-!
The steps of lexical evaluation that are not recursive are safe: operators, mentions of variables, bound
methods, properties, native code, declarations and new scopes.
-/

namespace LoxLang

open Resolver (hopsTo?)

namespace Lexical

open Account (lift inFrame)

/-- Code that is addressed by some notes is about to run under a display, in the frame the display begins
with. -/
structure Place (a : Atlas) (n : Notes) (d : Display) (w : World) : Prop where
  covers : a.Covers w.machine.hops n
  standing : d.Standing w.machine.heap
  frame : d.frame = w.machine.current

section

variable {α : Type} {a : Atlas} {n : Notes} {d : Display} {w w' : World} {names : List String}
  {good : α → World → Prop}

theorem Place.grows (h : Place a n d w) (hgrows : w.Grows [] w') : Place a n d w' :=
  ⟨hgrows.hops ▸ h.covers, h.standing.grows hgrows.heap, h.frame.trans hgrows.current.symm⟩

/-- A computation that does not change the machine. -/
theorem lift_still {x : Exec α} (hx : w.Sound a → Ends x w.machine
      (fun v m => m = w.machine ∧ good v w) (fun _ m => m = w.machine)) :
    Safe a (lift x) w [] good := by
  refine lift_safe fun hw => Ends.imp (hx hw) ?_ ?_
  · rintro v _ ⟨rfl, hgood⟩
    exact ⟨.refl hw, hgood⟩
  · rintro e _ rfl
    exact ⟨[], .refl hw⟩

/-! ### Operators -/

theorem unary_safe (op : UnaryOp) (position : Position) (v : Value) :
    Safe a (lift (Exec.unary op position v)) w [] fun r w' => w'.Knows a r := by
  refine lift_still fun _ => ?_
  unfold Exec.unary
  split
  · exact Ends.pure ⟨rfl, trivial⟩
  · exact Ends.pure ⟨rfl, trivial⟩
  · exact Ends.throw rfl

theorem binary_safe (op : BinaryOp) (position : Position) (left right : Value) :
    Safe a (lift (Exec.binary op position left right)) w [] fun r w' => w'.Knows a r := by
  refine lift_still fun _ => ?_
  unfold Exec.binary
  split
  · exact Ends.get_bind (Ends.pure ⟨rfl, trivial⟩)
  · exact Ends.get_bind (Ends.pure ⟨rfl, trivial⟩)
  · exact Ends.pure ⟨rfl, trivial⟩
  · exact Ends.pure ⟨rfl, trivial⟩
  · exact Ends.throw rfl
  · exact Ends.pure ⟨rfl, trivial⟩
  · exact Ends.throw rfl

/-! ### Mentions -/

theorem visit_safe {mention : Mention} (hexact : Visit.Exact ⟨mention, d, w.machine⟩) :
    Safe a (visit mention d) w [] fun _ w' => w'.machine = w.machine ∧ w'.captured = w.captured := by
  intro hw
  refine Ends.of_modify ⟨⟨hw.nonempty, hw.globals, hw.holds, hw.charts, fun v hv => ?_⟩,
    ⟨.of_frames rfl, rfl, rfl, fun _ _ h => h⟩, rfl, rfl⟩
  rcases List.mem_cons.mp hv with rfl | hv
  · exact hexact
  · exact hw.visits v hv

/-- The layer at the distance of a name binds the name, unless its declaration is going on there. -/
theorem Place.finds (h : Place a n d w) {x : String} {k : Nat} (hk : hopsTo? x d.scopes = some k) :
    ∃ layer, d.nearest? x = some layer ∧ d[k]? = some layer ∧
      w.machine.heap.ancestor? w.machine.current k = some layer.frame ∧
        (layer.scope.lookup x ≠ some .declared ∨ k ≠ 0 → layer.Binds w.machine.heap x) := by
  obtain ⟨layer, hnearest, hget, hlookup, hancestor⟩ := h.standing.chained.ancestor? hk
  refine ⟨layer, hnearest, hget, h.frame ▸ hancestor, fun hdone => ?_⟩
  cases d with
  | nil => cases hget
  | cons head outer =>
    cases k with
    | zero =>
      obtain rfl : head = layer := by simpa using hget
      refine h.standing.done head rfl _ ?_
      obtain ⟨status, hstatus⟩ := Option.isSome_iff_exists.mp hlookup
      cases status with
      | defined => exact hstatus
      | declared => simp [hstatus] at hdone
    | succ k =>
      have hmem : layer ∈ outer := List.mem_of_getElem? (by simpa using hget)
      exact h.standing.outer layer hmem _ hlookup

theorem getAt?_of_ancestor? {h : Heap} {f g : FrameId} {k : Nat} {x : String} {v : Value}
    (hancestor : h.ancestor? f k = some g) (hv : h.ownValue? g x = some v) :
    h.getAt? f k x = some v := by
  rw [Heap.getAt?, hancestor]
  exact hv

theorem Place.reads (h : Place a n d w) {r : Reference} (hplain : Plain r.ident.name)
    (hready : Scope.Ready r.ident.name d.scopes) (hr : n.Mentions d.scopes r) :
    Visit.Exact ⟨.read r, d, w.machine⟩ := by
  intro k hk
  rw [h.covers.find? hr] at hk
  obtain ⟨layer, hnearest, hget, hancestor, hbinds⟩ := h.finds hk
  have hdone : layer.scope.lookup r.ident.name ≠ some .declared ∨ k ≠ 0 := by
    cases k with
    | succ k => exact .inr (Nat.succ_ne_zero k)
    | zero =>
      cases d with
      | nil => cases hget
      | cons head outer =>
        obtain rfl : head = layer := by simpa using hget
        exact .inl hready
  obtain ⟨x, hx, _⟩ := hbinds hdone
  exact ⟨layer, x, hnearest, hancestor, getAt?_of_ancestor? hancestor hx,
    fun hthis => absurd hthis hplain.1⟩

/-- A scope of a class is found where the resolver has seen it, and binds its one name. -/
theorem Place.special (h : Place a n d w) {x : String} {k : Nat} (hk : hopsTo? x d.scopes = some k)
    (hscope : d.scopes[k]? = some [(x, .defined)]) :
    ∃ layer v, d.nearest? x = some layer ∧ layer.scope = [(x, .defined)] ∧
      w.machine.heap.ancestor? w.machine.current k = some layer.frame ∧
        w.machine.heap.getAt? w.machine.current k x = some v ∧ Fitting x v := by
  obtain ⟨layer, hnearest, hget, hancestor, hbinds⟩ := h.finds hk
  have hlayer : layer.scope = [(x, .defined)] := by
    rw [Display.scopes, List.getElem?_map, hget] at hscope
    exact Option.some.inj hscope
  obtain ⟨v, hv, hfitting⟩ := hbinds (.inl (by simp [hlayer]))
  exact ⟨layer, v, hnearest, hlayer, hancestor, getAt?_of_ancestor? hancestor hv, hfitting⟩

theorem Place.reads_receiver (h : Place a n d w) {id : NodeId} {position : Position}
    (hr : n.Mentions d.scopes (.this id position)) {j : Nat} (hj : Scope.Receiver d.scopes j) :
    Visit.Exact ⟨.read (.this id position), d, w.machine⟩ := by
  intro k hk
  rw [h.covers.find? hr] at hk
  obtain rfl : j = k := Option.some.inj (hj.1.symm.trans hk)
  obtain ⟨layer, v, hnearest, hlayer, hancestor, hv, hfitting⟩ := h.special hj.1 hj.2
  exact ⟨layer, v, hnearest, hancestor, hv, fun _ => ⟨hlayer, hfitting.1 rfl⟩⟩

theorem Place.finds_superclass (h : Place a n d w) {id : NodeId} {position : Position}
    (hr : n.Mentions d.scopes (.super id position)) {j : Nat} (hj : Scope.Receiver d.scopes j)
    (hsuper : Scope.Superclass d.scopes (j + 1)) :
    Visit.SuperExactly ⟨.super id position, d, w.machine⟩ id := by
  have hk := (h.covers.find? hr).trans hsuper.1
  obtain ⟨outer, v, houter, houterScope, houterAncestor, hv, hcls⟩ := h.special hsuper.1 hsuper.2
  obtain ⟨inner, u, hinner, hinnerScope, hinnerAncestor, hu, hobject⟩ := h.special hj.1 hj.2
  obtain ⟨cls, rfl⟩ := hcls.2 rfl
  obtain ⟨object, rfl⟩ := hobject.1 rfl
  exact ⟨j, outer, inner, cls, object, hk, ⟨houter, houterScope, houterAncestor, hv⟩,
    hinner, hinnerScope, hinnerAncestor, hu⟩

theorem assignAt?_eq_none {h : Heap} {f g : FrameId} {k : Nat} {x : String} {v : Value}
    (hancestor : h.ancestor? f k = some g) :
    h.assignAt? f k x v = none ↔ (h.ownValue? g x).isSome = false := by
  simp only [Heap.assignAt?, hancestor]
  split <;> simp_all

/-- Where an assignment misses, the name is in the middle of its declaration. -/
theorem Place.assigns (h : Place a n d w) {r : Reference} {v : Value}
    (hr : n.Mentions d.scopes r) : Visit.Exact ⟨.assign r v, d, w.machine⟩ := by
  intro k hk
  rw [h.covers.find? hr] at hk
  obtain ⟨layer, hnearest, hget, hancestor, hbinds⟩ := h.finds hk
  refine ⟨layer, hnearest, hancestor, ?_⟩
  rw [assignAt?_eq_none hancestor]
  constructor
  · intro hmiss
    have hdeclared : layer.scope.lookup r.ident.name = some .declared ∧ k = 0 := by
      by_contra hnot
      obtain ⟨x, hx, _⟩ := hbinds (not_and_or.mp hnot)
      rw [hx] at hmiss
      cases hmiss
    obtain ⟨hlookup, rfl⟩ := hdeclared
    cases d with
    | nil => cases hget
    | cons head outer =>
      obtain rfl : head = layer := by simpa using hget
      exact hlookup
  · intro hdeclared
    cases d with
    | nil => cases hdeclared
    | cons head outer =>
      have hlookup : head.scope.lookup r.ident.name = some .declared := hdeclared
      -- A name in the middle of its declaration is found in the innermost scope.
      obtain rfl : head = layer := by
        simpa [Display.nearest?, hlookup] using hnearest
      rw [Bool.eq_false_iff]
      intro hbound
      have := h.standing.bound head rfl _ hbound
      rw [hlookup] at this
      cases this

/-! ### Variables -/

theorem lookUp?_knows (hw : w.Sound a) {r : Reference} {v : Value}
    (hv : Exec.lookUp? w.machine r = some v) : w.Knows a v := by
  unfold Exec.lookUp? at hv
  split at hv
  · exact hw.holds.getAt? hv
  · exact hw.holds.get? hv

theorem read_safe {r : Reference} (hexact : Visit.Exact ⟨.read r, d, w.machine⟩) :
    Safe a (read d r) w [] fun v w' => w'.Knows a v := by
  refine (visit_safe hexact).bind fun _ w₁ _ _ => lift_still fun hw => Ends.get_bind ?_
  cases hv : Exec.lookUp? w₁.machine r with
  | none => exact Ends.throw rfl
  | some v => exact Ends.pure ⟨rfl, lookUp?_knows hw hv⟩

theorem assign_safe {r : Reference} {v : Value} (hplain : Plain r.ident.name)
    (hexact : Visit.Exact ⟨.assign r v, d, w.machine⟩) (hv : w.Knows a v) :
    Safe a (assign d r v) w [] fun _ _ => True := by
  refine (visit_safe hexact).bind fun _ w₁ hgrows _ => ?_
  have hv := hgrows.knows hv
  refine lift_safe fun hw => Ends.get_bind ?_
  cases hchanged : Exec.reassign? w₁.machine r v with
  | none => exact Ends.throw ⟨[], .refl hw⟩
  | some heap =>
    obtain ⟨g, hbound, rfl⟩ := Exec.reassign?_define hchanged
    exact ⟨⟨.of_redefine hplain hbound, rfl, rfl, hw.holds.define g _ hv⟩, trivial⟩

theorem define_safe {name : String} {v : Value} (hplain : Plain name) (hv : w.Knows a v) :
    Safe a (lift (Exec.define name v)) w [name] fun _ _ => True :=
  lift_safe fun hw => ⟨⟨.of_define hplain, rfl, rfl, hw.holds.define _ _ hv⟩, trivial⟩

/-! ### Functions and methods -/

/-- A new scope inside another one. -/
theorem newFrame_leaves (hw : w.Sound a) (parent : FrameId) {bindings : Bindings Value}
    (hbindings : ∀ b ∈ bindings, w.Knows a b.2) :
    Leaves a [] w { w.machine with heap := (w.machine.heap.newFrame (some parent) bindings).2 } :=
  ⟨.of_newFrame _ _, rfl, rfl, hw.holds.newFrame (some parent) hbindings⟩

theorem lookup_keep (key key' : NodeId × FrameId) (d : Display) (captured : Captured) :
    List.lookup key ((key', d) :: captured) = if key = key' then some d else captured.lookup key := by
  by_cases hkey : key = key'
  · simp [hkey]
  · simp [List.lookup_cons, beq_false_of_ne hkey, hkey]

/-- Keeping a display again does not change it. -/
theorem keep_kept {h : Heap} {captured : Captured} {id : NodeId} {frame : FrameId}
    (hglobals : h.parent? .globals = none)
    (hkept : ∀ id frame d, captured.lookup (id, frame) = some d → a.Charts h id frame d)
    (hcharts : a.Charts h id frame d) : ∀ key d', captured.lookup key = some d' →
      List.lookup key (((id, frame), d) :: captured) = some d' := by
  intro key d' hd'
  rw [lookup_keep]
  split
  case isTrue heq =>
    subst heq
    rw [hcharts.unique hglobals (hkept _ _ _ hd')]
  case isFalse => exact hd'

theorem keep_charts {h : Heap} {captured : Captured} {id : NodeId} {frame : FrameId}
    (hkept : ∀ id frame d, captured.lookup (id, frame) = some d → a.Charts h id frame d)
    (hcharts : a.Charts h id frame d) : ∀ id' frame' d',
      List.lookup (id', frame') (((id, frame), d) :: captured) = some d' →
        a.Charts h id' frame' d' := by
  intro id' frame' d' hd'
  rw [lookup_keep] at hd'
  split at hd'
  case isTrue heq =>
    obtain rfl : d = d' := Option.some.inj hd'
    obtain ⟨rfl, rfl⟩ := Prod.mk.inj heq
    exact hcharts
  case isFalse => exact hkept id' frame' d' hd'

theorem capture_safe {f : Closure} (hcharts : a.Charts w.machine.heap f.declaration.id f.frame d) :
    Safe a (capture f d) w [] fun _ w' =>
      w'.machine = w.machine ∧ w'.captured.lookup (f.declaration.id, f.frame) = some d := by
  intro hw
  have hgrows : w.Grows []
      { w with captured := ((f.declaration.id, f.frame), d) :: w.captured } :=
    ⟨.of_frames rfl, rfl, rfl, keep_kept hw.globals hw.charts hcharts⟩
  refine Ends.of_modify ⟨⟨hw.nonempty, hw.globals, ?_, keep_charts hw.charts hcharts, hw.visits⟩,
    hgrows, rfl, ?_⟩
  · exact hw.holds.mono (fun _ => hgrows.function) fun _ => hgrows.method
  · rw [lookup_keep, if_pos rfl]

theorem displayOf_safe {f : Closure} (hd : w.captured.lookup (f.declaration.id, f.frame) = some d) :
    Safe a (displayOf f) w [] fun d' w' => d' = d ∧ w' = w :=
  Safe.get_bind fun _ => Safe.pure ⟨by rw [hd]; rfl, rfl⟩

/-- A method that is bound to a receiver is a known function. -/
theorem bindReceiver_safe {m : Closure} (receiver : ObjectId)
    (hm : KnownMethod a w.machine.hops w.captured m) :
    Safe a (bindReceiver m receiver) w [] fun f w' =>
      KnownFunction a w'.machine.hops w'.captured f ∧ f.declaration = m.declaration := by
  obtain ⟨outer, notes, houter, hcovers, hsite, haddressed⟩ := hm
  intro hw
  have hcharts := hw.charts _ _ _ houter
  have henclosed : Display.Enclosed (w.machine.heap.bind m receiver).2
      (⟨(w.machine.heap.bind m receiver).1.frame, receiverScope⟩ :: outer) := by
    have hspecial := hcharts.enclosed.push_special (x := thisName) (v := .object receiver)
      ⟨fun _ => ⟨receiver, rfl⟩, fun h => absurd h (by decide)⟩
    rw [hcharts.frame] at hspecial
    exact hspecial
  have hbind : Safe a (lift (Exec.updateHeap fun h => h.bind m receiver)) w [] fun f w' =>
      f = (w.machine.heap.bind m receiver).1 ∧ w'.captured = w.captured ∧
        w'.machine.heap = (w.machine.heap.bind m receiver).2 := by
    refine lift_safe fun hw => ⟨?_, rfl, rfl, rfl⟩
    refine newFrame_leaves hw m.frame fun b hb => ?_
    obtain rfl : b = (thisName, .object receiver) := by simpa using hb
    trivial
  refine (hbind.bind fun f w₁ hgrows hf => ?_) hw
  obtain ⟨rfl, hcaptured, hheap⟩ := hf
  refine (displayOf_safe (hcaptured ▸ houter)).bind fun d w₂ _ hd => ?_
  obtain ⟨rfl, rfl⟩ := hd
  have hcharts' : a.Charts w₂.machine.heap m.declaration.id
      (w.machine.heap.bind m receiver).1.frame
      (⟨(w.machine.heap.bind m receiver).1.frame, receiverScope⟩ :: d) :=
    ⟨rfl, hheap ▸ henclosed, d.scopes, hsite, .inr rfl⟩
  refine (capture_safe (f := (w.machine.heap.bind m receiver).1) hcharts').bind
    fun _ w₃ hgrows' hcapture => ?_
  refine Safe.pure ⟨⟨_, notes, hcapture.2, ?_, haddressed⟩, rfl⟩
  rw [hgrows'.hops, hgrows.hops]
  exact hcovers

theorem bindMethod_safe (cls : ClassId) (name : Ident) (receiver : ObjectId) :
    Safe a (bindMethod cls name receiver) w [] fun v w' => w'.Knows a v := by
  refine Safe.get_bind fun hw => ?_
  cases hm : w.machine.heap.method? cls name.name with
  | none => exact fail_safe _ _
  | some m =>
    exact (bindReceiver_safe receiver (hw.holds.method? hm)).bind fun f _ _ hf => Safe.pure hf.1

theorem superMethod_safe {id : NodeId} {position : Position} (method : Ident)
    (hexact : Visit.Exact ⟨.super id position, d, w.machine⟩) :
    Safe a (superMethod d id position method) w [] fun v w' => w'.Knows a v := by
  refine (visit_safe hexact).bind fun _ w₁ _ _ => Safe.get_bind fun hw => ?_
  dsimp only
  cases w₁.machine.hops.find? id with
  | none => exact fail_safe _ _
  | some hops =>
    dsimp only
    cases w₁.machine.heap.getAt? w₁.machine.current hops superName with
    | none => exact fail_safe _ _
    | some v =>
      cases v with
      | cls c =>
        dsimp only
        cases Exec.receiver? w₁.machine hops with
        | none => exact fail_safe _ _
        | some v =>
          cases v with
          | object o => exact bindMethod_safe c method o
          | _ => exact fail_safe _ _
      | _ => exact fail_safe _ _

theorem property_safe (v : Value) (name : Ident) :
    Safe a (property v name) w [] fun v w' => w'.Knows a v := by
  unfold property
  split
  case h_1 id =>
    refine Safe.get_bind fun hw => ?_
    cases ho : w.machine.heap.object? id with
    | none => exact fail_safe _ _
    | some o =>
      dsimp only
      cases hv : o.fields.lookup name.name with
      | none => exact bindMethod_safe o.cls name id
      | some v => exact Safe.pure (hw.holds.field ho hv)
  case h_2 hobject =>
    refine lift_still fun _ => ?_
    cases v with
    | object id => exact absurd rfl (hobject id)
    | array id =>
      simp only [Exec.property]
      cases ArrayMethod.ofName? name.name with
      | none => exact Ends.throw rfl
      | some m => exact Ends.pure ⟨rfl, trivial⟩
    | _ => exact Ends.throw rfl

/-! ### Native code -/

theorem callNative_safe (f : Native) {vs : List Value} (hvs : ∀ v ∈ vs, w.Knows a v)
    (paren : Position) :
    Safe a (lift (Exec.callNative f vs paren)) w [] fun v w' => w'.Knows a v := by
  refine lift_safe fun hw => ?_
  refine .callNative ((hw.holds.native f hvs).imp ?_ ?_)
  · rintro v m ⟨hv, hholds, hframes, hcurrent, hhops⟩
    have hleaves : Leaves a [] w m := ⟨.of_frames hframes, hcurrent, hhops, hholds⟩
    exact ⟨hleaves, hleaves.grows.knows hv⟩
  · rintro fault m ⟨hholds, hframes, hcurrent, hhops⟩
    exact ⟨[], .of_frames hframes, hcurrent, hhops, hholds⟩

theorem callArrayMethod_safe (id : ArrayId) (method : ArrayMethod) (position : Position)
    {vs : List Value} (hvs : ∀ v ∈ vs, w.Knows a v) :
    Safe a (lift (Exec.callArrayMethod id method position vs)) w [] fun v w' => w'.Knows a v := by
  refine lift_safe fun hw => ?_
  unfold Ends EStateM.run Exec.callArrayMethod
  cases hresult : method.run w.machine.heap id vs with
  | error fault => exact ⟨[], .refl hw⟩
  | ok result =>
    obtain ⟨v, heap⟩ := result
    obtain ⟨hv, hholds, hframes⟩ := hw.holds.arrayMethod id method hvs hresult
    exact ⟨⟨.of_frames hframes, rfl, rfl, hholds⟩, hv⟩

/-! ### Objects -/

theorem newObject_safe (cls : ClassId) :
    Safe a (lift (Exec.updateHeap fun h => h.newObject cls)) w [] fun _ w' =>
      w'.machine.heap.classes = w.machine.heap.classes :=
  lift_safe fun hw => ⟨⟨.of_frames rfl, rfl, rfl, hw.holds.newObject cls⟩, rfl⟩

theorem setField_safe (id : ObjectId) (name : String) {v : Value} (hv : w.Knows a v) :
    Safe a (lift (modify fun m => { m with heap := m.heap.setField id name v })) w [] fun _ _ => True :=
  lift_safe fun hw => ⟨⟨.of_frames rfl, rfl, rfl, hw.holds.setField id name hv⟩, trivial⟩

theorem print_safe (v : Value) :
    Safe a (lift (modify fun m => m.print (v.text m.heap ++ "\n"))) w [] fun _ _ => True :=
  lift_safe fun hw => ⟨⟨.of_frames rfl, rfl, rfl, hw.holds⟩, trivial⟩

/-! ### Scopes -/

/-- A computation in a new scope ends as it does there. -/
theorem newScope_ends {body : FrameId → Lexical α} {parent : FrameId} {bindings : Bindings Value}
    {value : α → World → Prop} {fault : Halt → World → Prop}
    (h : Ends (body (w.machine.heap.newFrame (some parent) bindings).1)
      { w with machine := { w.machine with
          heap := (w.machine.heap.newFrame (some parent) bindings).2
          current := (w.machine.heap.newFrame (some parent) bindings).1 } }
      (fun c w' => value c { w' with machine := { w'.machine with current := w.machine.current } })
      fun e w' => fault e { w' with machine := { w'.machine with current := w.machine.current } }) :
    Ends (do
      let frame ← lift (Exec.newFrame parent bindings)
      inFrame frame (body frame)) w value fault := by
  have hinside : Ends (inFrame _ (body (w.machine.heap.newFrame (some parent) bindings).1) : Lexical α)
      { w with machine := { w.machine with heap := (w.machine.heap.newFrame (some parent) bindings).2 } }
      value fault := Account.inFrame_ends h
  exact hinside

/-- Code that runs in a new scope adds nothing to the scopes that were there before. -/
theorem scoped_safe {body : FrameId → Lexical Completion} {parent : FrameId} {bindings : Bindings Value}
    (hbindings : ∀ b ∈ bindings, w.Knows a b.2)
    (hbody : ∀ w₁ : World,
      w₁.machine = { w.machine with
        heap := (w.machine.heap.newFrame (some parent) bindings).2
        current := (w.machine.heap.newFrame (some parent) bindings).1 } →
      w₁.captured = w.captured →
      SafeInside a (body (w.machine.heap.newFrame (some parent) bindings).1) w₁
        fun c w' => w'.KnowsResult a c) :
    Safe a (do
      let frame ← lift (Exec.newFrame parent bindings)
      inFrame frame (body frame)) w [] fun c w' => w'.KnowsResult a c := by
  intro hw
  have hleaves := newFrame_leaves hw parent hbindings
  let w₁ : World := { w with machine := { w.machine with
    heap := (w.machine.heap.newFrame (some parent) bindings).2
    current := (w.machine.heap.newFrame (some parent) bindings).1 } }
  have hw₁ : w₁.Sound a := by
    have := hleaves.sound hw
    exact ⟨this.nonempty, this.globals, this.holds, this.charts, this.visits⟩
  have hnew : ¬(w.machine.heap.newFrame (some parent) bindings).1.index < w.machine.heap.frames.size :=
    Nat.lt_irrefl _
  refine newScope_ends (Ends.imp (hbody w₁ rfl rfl hw₁) ?_ ?_)
  · rintro c w' ⟨hw', ⟨names, hgrows⟩, hknows⟩
    exact ⟨⟨hw'.nonempty, hw'.globals, hw'.holds, hw'.charts, hw'.visits⟩,
      ⟨hleaves.heap.of_newer hnew hgrows.heap, rfl, hgrows.hops, hgrows.captured⟩, hknows⟩
  · rintro e w' ⟨hw', _, hhops⟩
    exact ⟨⟨hw'.nonempty, hw'.globals, hw'.holds, hw'.charts, hw'.visits⟩, rfl, hhops⟩

/-! ### Declarations -/

theorem Place.declare (h : Place a n d w) {name : String} (hname : Plain name)
    (hgrows : w.Grows [name] w') : Place a n (d.declare name) w' := by
  refine ⟨hgrows.hops ▸ h.covers, h.standing.declare hname (h.frame ▸ hgrows.heap), ?_⟩
  rw [Display.frame_declare, h.frame, hgrows.current]

/-- A function sees its own name, so its display fits the heap only once the name is bound. -/
theorem declareFunction_safe (h : Place a n d w) (hsteady : d.Steady) {declaration : FunctionDecl}
    (hname : Plain declaration.name.name)
    (hsite : (declaration.id, Scope.declare declaration.name.name d.scopes) ∈ n.sites)
    (haddressed : declaration.Addressed n (Scope.declare declaration.name.name d.scopes)) :
    Safe a (declareFunction d declaration) w [declaration.name.name] fun _ _ => True := by
  intro hw
  let f : Closure := ⟨declaration, w.machine.current, false⟩
  let heap := w.machine.heap.define w.machine.current declaration.name.name (.function f)
  have hgrows : Heap.Grows w.machine.current [declaration.name.name] w.machine.heap heap :=
    .of_define hname
  have hstanding : Display.Standing heap (d.declare declaration.name.name) :=
    h.standing.declare hname (by rw [h.frame]; exact hgrows)
  have hcharts : a.Charts heap declaration.id w.machine.current (d.declare declaration.name.name) :=
    ⟨(Display.frame_declare _ _).trans h.frame, hstanding.enclosed (Display.steady_declare hsteady _),
      _, (h.covers.sites _ hsite).2, .inl (Display.scopes_declare _ _)⟩
  have hglobals := (hgrows.parent .globals hw.nonempty).trans hw.globals
  have hkept := fun id frame d hd => (hw.charts id frame d hd).grows hgrows
  have hgrown : w.Grows [declaration.name.name] { w with
      machine := { w.machine with heap := heap }
      captured := ((declaration.id, w.machine.current), d.declare declaration.name.name) ::
        w.captured } :=
    ⟨hgrows, rfl, rfl, keep_kept hglobals hkept hcharts⟩
  refine ⟨⟨Nat.lt_of_lt_of_le hw.nonempty hgrows.size, hglobals, ?_, keep_charts hkept hcharts,
    hw.visits⟩, hgrown, trivial⟩
  refine (hw.holds.mono (fun _ => hgrown.function) fun _ => hgrown.method).define _ _ ?_
  refine ⟨d.declare declaration.name.name, n, ?_, h.covers, ?_⟩
  · exact (lookup_keep _ _ _ _).trans (if_pos rfl)
  · rw [Display.scopes_declare]
    exact haddressed

theorem captureAll_safe {methods : List FunctionDecl} (hcovers : a.Covers w.machine.hops n)
    (henclosed : d.Enclosed w.machine.heap)
    (hmethods : FunctionDecl.AllAddressed n d.scopes methods) :
    Safe a (captureAll d.frame d methods) w [] fun _ w' => w'.machine = w.machine ∧
      ∀ m ∈ methods, ∀ initializer, KnownMethod a w'.machine.hops w'.captured
        ⟨m, d.frame, initializer⟩ := by
  induction methods generalizing w with
  | nil => exact Safe.pure ⟨rfl, by simp⟩
  | cons m rest ih =>
    obtain ⟨⟨hsite, haddressed⟩, hrest⟩ := hmethods
    have hsite := (hcovers.sites _ hsite).2
    have hcharts : a.Charts w.machine.heap m.id d.frame d :=
      ⟨rfl, henclosed, d.scopes, hsite, .inl rfl⟩
    refine (capture_safe (f := ⟨m, d.frame, decide (m.name.name = initializerName)⟩) hcharts).bind
      fun _ w₁ hgrows hcapture => ?_
    obtain ⟨hmachine, hlookup⟩ := hcapture
    refine (ih (hmachine ▸ hcovers) (hmachine ▸ henclosed) hrest).imp fun _ w₂ hgrows' h => ?_
    refine ⟨h.1.trans hmachine, fun m' hm' initializer => ?_⟩
    rcases List.mem_cons.mp hm' with rfl | hm'
    · refine ⟨d, n, hgrows'.captured _ _ hlookup, ?_, hsite, haddressed⟩
      rw [h.1, hmachine]
      exact hcovers
    · exact h.2 m' hm' initializer

/-- The class itself, when its methods have been kept. -/
theorem newClass_safe {frame : FrameId} {methods : List FunctionDecl} (name : Ident)
    (superclass : Option ClassId) (hname : Plain name.name)
    (hmethods : ∀ m ∈ methods, ∀ initializer, KnownMethod a w.machine.hops w.captured
      ⟨m, frame, initializer⟩) :
    Safe a (do
      let cls ← lift (Exec.updateHeap fun h =>
        h.newClass ⟨name.name, superclass, Exec.methodBindings frame methods⟩)
      lift (Exec.define name.name (.cls cls))) w [name.name] fun _ _ => True := by
  have hnew : Safe a (lift (Exec.updateHeap fun h =>
      h.newClass ⟨name.name, superclass, Exec.methodBindings frame methods⟩)) w [] fun _ _ => True :=
    lift_safe fun hw => ⟨⟨.of_frames rfl, rfl, rfl,
      hw.holds.newClass (Exec.methodBindings_each hmethods)⟩, trivial⟩
  exact hnew.bind fun cls _ _ _ => define_safe hname trivial

/-- The scopes around the methods of a class. -/
def classScopes (scopes : List Scope) : Option ClassId → List Scope
  | none => scopes
  | some _ => superclassScope :: scopes

theorem declareClass_safe (h : Place a n d w) (hsteady : d.Steady) {name : Ident}
    {superclass : Option ClassId} {methods : List FunctionDecl} (hname : Plain name.name)
    (hmethods : FunctionDecl.AllAddressed n
      (classScopes (Scope.declare name.name d.scopes) superclass) methods) :
    Safe a (declareClass d name superclass methods) w [name.name] fun _ _ => True := by
  have hrest : Safe a (declareClass d name superclass methods) w
      ([name.name] ++ ([] ++ ([] ++ [name.name]))) fun _ _ => True := by
    refine (define_safe (v := .nil) hname trivial).bind fun _ w₁ hgrows _ => ?_
    have hplace := h.declare hname hgrows
    have henclosed := hplace.standing.enclosed (Display.steady_declare hsteady name.name)
    refine Safe.get_bind fun hw₁ => ?_
    cases superclass with
    | none =>
      have hframe : Safe a (pure w₁.machine.current) w₁ [] fun frame w =>
          frame = w₁.machine.current ∧ w = w₁ := Safe.pure ⟨rfl, rfl⟩
      refine hframe.bind fun frame w₂ _ hframe => ?_
      obtain ⟨rfl, rfl⟩ := hframe
      rw [← hplace.frame]
      rw [classScopes, ← Display.scopes_declare] at hmethods
      refine (captureAll_safe hplace.covers henclosed hmethods).bind fun _ w₃ _ hknown => ?_
      exact newClass_safe name none hname hknown.2
    | some c =>
      have hframe : Safe a (lift (Exec.newFrame w₁.machine.current [(superName, .cls c)])) w₁ []
          fun frame w₂ => frame = (w₁.machine.heap.newFrame (some w₁.machine.current)
              [(superName, .cls c)]).1 ∧
            w₂.machine.heap = (w₁.machine.heap.newFrame (some w₁.machine.current)
              [(superName, .cls c)]).2 := by
        refine lift_safe fun hw => ⟨newFrame_leaves hw _ fun b hb => ?_, rfl, rfl⟩
        obtain rfl : b = (superName, .cls c) := by simpa using hb
        trivial
      refine hframe.bind fun frame w₂ hgrows₂ hframe => ?_
      obtain ⟨rfl, hheap⟩ := hframe
      have hspecial := henclosed.push_special (x := superName) (v := .cls c)
        ⟨fun h => absurd h (by decide), fun _ => ⟨c, rfl⟩⟩
      rw [hplace.frame, ← hheap] at hspecial
      have hcovers : a.Covers w₂.machine.hops n := hgrows₂.hops ▸ hplace.covers
      rw [classScopes, ← Display.scopes_declare] at hmethods
      refine (captureAll_safe hcovers hspecial hmethods).bind fun _ w₃ _ hknown => ?_
      exact newClass_safe name (some c) hname hknown.2
  exact hrest.congr (by simp)

end

end Lexical

end LoxLang
