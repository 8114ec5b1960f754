import LoxLang.Proofs.Evaluation.Tasks
import LoxLang.Proofs.Scope.SurveyedSession
import LoxLang.Proofs.Session.Alike

/-!
Every task of a session begins in a surveyed world. Lexical evaluation goes through the states of evaluation,
so at each point there is a world behind the state: the code of the task stands there under a display, and
the values it has been given are known.
-/

namespace LoxLang

open Lexical (Place Post Allowed Surveys Erases)

/-- A value whose functions are known, and known to have known spots. -/
def World.Passes (a : Atlas) (known : Spot → Prop) (openings : List Opening) (w : World) (v : Value) : Prop :=
  w.Knows a v ∧ w.Spots known openings v

/-- Code runs under a display in a sound and surveyed world. -/
structure Station (a : Atlas) (known : Spot → Prop) (n : Notes) (d : Display) (nest openings : List Opening)
    (w : World) : Prop where
  sound : w.Sound a
  surveyed : w.Surveyed known openings
  place : Place a n d w
  post : Post openings nest d w

/-- The world can follow the other one. -/
structure World.Follows (known : Spot → Prop) (names : List String) (openings openings' : List Opening)
    (w w' : World) : Prop where
  grows : w.Grows names w'
  openings : openings <+: openings'
  before : w.Before w'

section

variable {a : Atlas} {known : Spot → Prop} {n : Notes} {d : Display} {nest openings openings' : List Opening}
  {w w' : World} {m m' : Machine} {names : List String}

theorem Station.follow (h : Station a known n d nest openings w) (hsound : w'.Sound a)
    (hsurveyed : w'.Surveyed known openings') (hfollows : w.Follows known [] openings openings' w') :
    Station a known n d nest openings' w' :=
  ⟨hsound, hsurveyed, h.place.grows hfollows.grows,
    h.post.grows h.place hfollows.grows hfollows.openings⟩

theorem World.Passes.follow {v : Value} (hv : w.Passes a known openings v)
    (hfollows : w.Follows known names openings openings' w') : w'.Passes a known openings' v :=
  ⟨hfollows.grows.knows hv.1, hv.2.mono hfollows.openings hfollows.grows⟩

/-- Behind a computation of the machine there is the world that lexical evaluation reaches. -/
theorem Lexical.Surveys.reaches {α : Type} {x : Lexical α} {y : Exec α} {safe : α → World → Prop}
    {good : α → List Opening → World → Prop} (hx : Surveys a known x w openings good)
    (hsafe : Safe a x w names safe) (herases : Erases x y) (hsound : w.Sound a)
    (hsurveyed : w.Surveyed known openings) {v : α} (hrun : y.run w.machine = .ok v m') :
    ∃ w' openings', w'.machine = m' ∧ w'.Sound a ∧ w'.Surveyed known openings' ∧
      w.Follows known names openings openings' w' ∧ safe v w' ∧ good v openings' w' := by
  have hends := (hsafe hsound).both (hx hsound hsurveyed)
  have hsame : Account.forget (x.run w) = .ok v m' := ((herases w).forget trivial).trans hrun
  unfold Ends at hends
  cases hresult : x.run w with
  | error e w' =>
    rw [hresult] at hsame
    cases hsame
  | ok u w' =>
    rw [hresult] at hsame hends
    obtain ⟨rfl, hmachine⟩ := EStateM.Result.ok.inj hsame
    obtain ⟨⟨hsound', hgrows, hsafe'⟩, openings', hprefix, hbefore, hsurveyed', hgood⟩ := hends
    exact ⟨w', openings', hmachine, hsound', hsurveyed', ⟨hgrows, hprefix, hbefore⟩, hsafe', hgood⟩

theorem Station.evaluate (h : Station a known n d nest openings w) {fuel : Nat} {e : Expr}
    (he : e.Addressed n d.scopes) (hknown : ∀ p ∈ e.spots nest d.scopes, known p) {v : Value}
    (hrun : (LoxLang.evaluate fuel e).run w.machine = .ok v m') :
    ∃ w' openings', w'.machine = m' ∧ Station a known n d nest openings' w' ∧
      w.Follows known [] openings openings' w' ∧ w'.Passes a known openings' v := by
  obtain ⟨w', openings', hmachine, hsound, hsurveyed, hfollows, hknows, hspots⟩ :=
    (Lexical.evaluate_surveys fuel e h.place he h.post hknown).reaches
      (Lexical.evaluate_safe fuel e h.place he) ((Lexical.keeper_faithful.within fuel).evaluate d e) h.sound h.surveyed hrun
  exact ⟨w', openings', hmachine, h.follow hsound hsurveyed hfollows, hfollows, hknows, hspots⟩

theorem Station.evaluateAll (h : Station a known n d nest openings w) {fuel : Nat} {es : List Expr}
    (hes : Expr.AllAddressed n d.scopes es) (hknown : ∀ p ∈ Expr.allSpots nest d.scopes es, known p)
    {vs : List Value} (hrun : (LoxLang.evaluateAll fuel es).run w.machine = .ok vs m') :
    ∃ w' openings', w'.machine = m' ∧ Station a known n d nest openings' w' ∧
      w.Follows known [] openings openings' w' ∧ ∀ v ∈ vs, w'.Passes a known openings' v := by
  obtain ⟨w', openings', hmachine, hsound, hsurveyed, hfollows, hknows, hspots⟩ :=
    (Lexical.evaluateAll_surveys fuel es h.place hes h.post hknown).reaches
      (Lexical.evaluateAll_safe fuel es h.place hes) ((Lexical.keeper_faithful.within fuel).evaluateAll d es) h.sound
      h.surveyed hrun
  exact ⟨w', openings', hmachine, h.follow hsound hsurveyed hfollows, hfollows,
    fun v hv => ⟨hknows v hv, hspots v hv⟩⟩

theorem Station.execute (h : Station a known n d nest openings w) (hsteady : d.Steady) {fuel : Nat}
    {s : Stmt} (hs : s.Addressed n d.scopes) (hallowed : Allowed nest s.declared?.toList)
    (hknown : ∀ p ∈ s.spots nest d.scopes, known p) {c : Completion}
    (hrun : (LoxLang.execute fuel s).run w.machine = .ok c m') :
    ∃ w' openings', w'.machine = m' ∧ Station a known n (d.after s) nest openings' w' ∧
      w.Follows known s.declared?.toList openings openings' w' := by
  obtain ⟨w', openings', hmachine, hsound, hsurveyed, hfollows, -, -⟩ :=
    (Lexical.execute_surveys fuel s h.place hsteady hs h.post hallowed hknown).reaches
      (Lexical.execute_safe fuel s h.place hsteady hs) ((Lexical.keeper_faithful.within fuel).execute d s) h.sound
      h.surveyed hrun
  exact ⟨w', openings', hmachine, ⟨hsound, hsurveyed, h.place.after hs hfollows.grows,
    (h.post.gains h.place h.surveyed hfollows.grows hfollows.openings).after s⟩, hfollows⟩

/-- A statement that declares nothing leaves its display as it is. -/
theorem Station.pass (h : Station a known n d nest openings w) (hsteady : d.Steady) {fuel : Nat} {s : Stmt}
    (hs : s.Addressed n d.scopes) (hdeclared : s.declared? = none)
    (hknown : ∀ p ∈ s.spots nest d.scopes, known p) {c : Completion}
    (hrun : (LoxLang.execute fuel s).run w.machine = .ok c m') :
    ∃ w' openings', w'.machine = m' ∧ Station a known n d nest openings' w' := by
  obtain ⟨w', openings', hmachine, hstation, -⟩ :=
    h.execute hsteady hs (by simp [hdeclared, Allowed]) hknown hrun
  refine ⟨w', openings', hmachine, ?_⟩
  simpa [Display.after, hdeclared] using hstation

/-- A body in a new scope, which was made for an opening. -/
theorem Station.push {parent : FrameId} {bindings : Bindings Value} {scope : Scope} {outer : Display}
    (o : Opening) (hsound : w.Sound a) (hsurveyed : w.Surveyed known openings)
    (hcovers : a.Covers w.machine.hops n) (houter : outer.frame = parent)
    (hlt : parent.index < w.machine.heap.frames.size)
    (hstanding : Display.Standing (w.machine.heap.newFrame (some outer.frame) bindings).2
      (⟨(w.machine.heap.newFrame (some outer.frame) bindings).1, scope⟩ :: outer))
    (hpost : ∀ w₁ : World, w₁.machine = { w.machine with
        heap := (w.machine.heap.newFrame (some outer.frame) bindings).2
        current := (w.machine.heap.newFrame (some outer.frame) bindings).1 } →
      Post (openings ++ [o]) (o :: nest)
        (⟨(w.machine.heap.newFrame (some outer.frame) bindings).1, scope⟩ :: outer) w₁)
    (hbindings : ∀ b ∈ bindings, w.Passes a known openings b.2)
    (hallowed : ∀ x, (bindings.lookup x).isSome → o.Allows x) (ho : ∀ clause, o ≠ .superclass clause)
    (hr : o ≠ .receiver) :
    ∃ w₁ : World, w₁.machine = { w.machine with
        heap := (w.machine.heap.newFrame (some parent) bindings).2
        current := (w.machine.heap.newFrame (some parent) bindings).1 } ∧
      Station a known n (⟨(w.machine.heap.newFrame (some outer.frame) bindings).1, scope⟩ :: outer)
        (o :: nest) (openings ++ [o]) w₁ := by
  subst houter
  have hleaves := Lexical.newFrame_leaves hsound outer.frame fun b hb => (hbindings b hb).1
  have hnew := hsurveyed.newFrame o hlt (fun b hb => (hbindings b hb).2) hallowed
    (fun clause h => absurd h (ho clause)) fun h => absurd h hr
  let w₁ : World := { w with machine := { w.machine with
    heap := (w.machine.heap.newFrame (some outer.frame) bindings).2
    current := (w.machine.heap.newFrame (some outer.frame) bindings).1 } }
  have hsound₁ : w₁.Sound a := by
    have := hleaves.sound hsound
    exact ⟨this.nonempty, this.globals, this.holds, this.charts, this.visits⟩
  exact ⟨w₁, rfl, hsound₁, hnew.enters _, Place.push hcovers hstanding rfl, hpost w₁ rfl⟩

end

/-! ### Tasks -/

/-- The code of the task stands under a display in the world, and the values it was given are known. -/
def Task.Ready (a : Atlas) (known : Spot → Prop) (openings : List Opening) (w : World) : Task → Prop
  | .evaluate _ e => ∃ n d nest, Station a known n d nest openings w ∧ e.Addressed n d.scopes ∧
    ∀ p ∈ e.spots nest d.scopes, known p
  | .evaluateAll _ es => ∃ n d nest, Station a known n d nest openings w ∧
    Expr.AllAddressed n d.scopes es ∧ ∀ p ∈ Expr.allSpots nest d.scopes es, known p
  | .property _ _ => True
  | .call _ f vs _ => w.Passes a known openings f ∧ ∀ v ∈ vs, w.Passes a known openings v
  | .instantiate _ id vs => (∀ v ∈ vs, w.Passes a known openings v) ∧
    ∀ m, w.machine.heap.method? id initializerName = some m →
      vs.length = m.declaration.parameters.length
  | .invoke _ f vs => w.Passes a known openings (.function f) ∧ (∀ v ∈ vs, w.Passes a known openings v) ∧
    vs.length = f.declaration.parameters.length
  | .execute _ s => ∃ n d nest, Station a known n d nest openings w ∧ d.Steady ∧ s.Addressed n d.scopes ∧
    Allowed nest s.declared?.toList ∧ ∀ p ∈ s.spots nest d.scopes, known p
  | .loop _ condition body increment => ∃ n d nest, Station a known n d nest openings w ∧ d.Steady ∧
    (Stmt.loop condition body increment).Addressed n d.scopes ∧
      ∀ p ∈ (Stmt.loop condition body increment).spots nest d.scopes, known p
  | .executeAll _ body => ∃ n d nest, Station a known n d nest openings w ∧ d.Steady ∧
    Stmt.AllAddressed n d.scopes body ∧ Allowed nest (body.filterMap Stmt.declared?) ∧
      ∀ p ∈ Stmt.allSpots nest d.scopes body, known p

/-- There is a world behind the state in which the task begins. -/
def Task.Begins (a : Atlas) (known : Spot → Prop) (t : Task) (m : Machine) : Prop :=
  ∃ w openings, w.machine = m ∧ w.Sound a ∧ w.Surveyed known openings ∧ t.Ready a known openings w

namespace Task

variable {a : Atlas} {known : Spot → Prop} {fuel : Nat} {t : Task} {m m' : Machine}
  {n : Notes} {d : Display} {nest openings : List Opening} {w : World}

theorem updateHeap_run {α : Type} (f : Heap → α × Heap) (m : Machine) :
    (Exec.updateHeap f).run m = .ok (f m.heap).1 { m with heap := (f m.heap).2 } := rfl

theorem begins_evaluate {e : Expr} (hw : Station a known n d nest openings w)
    (he : e.Addressed n d.scopes) (hknown : ∀ p ∈ e.spots nest d.scopes, known p) :
    Begins a known (.evaluate fuel e) w.machine :=
  ⟨w, openings, rfl, hw.sound, hw.surveyed, n, d, nest, hw, he, hknown⟩

theorem begins_execute {s : Stmt} (hw : Station a known n d nest openings w) (hsteady : d.Steady)
    (hs : s.Addressed n d.scopes) (hallowed : Allowed nest s.declared?.toList)
    (hknown : ∀ p ∈ s.spots nest d.scopes, known p) : Begins a known (.execute fuel s) w.machine :=
  ⟨w, openings, rfl, hw.sound, hw.surveyed, n, d, nest, hw, hsteady, hs, hallowed, hknown⟩

/-- A statement that declares nothing is allowed in any nest. -/
theorem begins_branch {s : Stmt} (hw : Station a known n d nest openings w) (hsteady : d.Steady)
    (hs : s.Addressed n d.scopes) (hdeclared : s.declared? = none)
    (hknown : ∀ p ∈ s.spots nest d.scopes, known p) : Begins a known (.execute fuel s) w.machine :=
  begins_execute hw hsteady hs (by simp [hdeclared, Allowed]) hknown

theorem Begins.of_evaluate {e : Expr} (h : Begins a known (.evaluate fuel e) m)
    (hleads : Leads (.evaluate fuel e) m t m') : Begins a known t m' := by
  obtain ⟨w, openings, rfl, -, -, n, d, nest, hw, he, hknown⟩ := h
  cases hleads with
  | grouping => exact begins_evaluate hw he hknown
  | unary => exact begins_evaluate hw he hknown
  | binaryLeft => exact begins_evaluate hw he.1 fun p hp => hknown p (List.mem_append_left _ hp)
  | binaryRight hleft =>
    obtain ⟨w₁, openings₁, rfl, hw₁, -⟩ :=
      hw.evaluate he.1 (fun p hp => hknown p (List.mem_append_left _ hp)) hleft
    exact begins_evaluate hw₁ he.2 fun p hp => hknown p (List.mem_append_right _ hp)
  | logicalLeft => exact begins_evaluate hw he.1 fun p hp => hknown p (List.mem_append_left _ hp)
  | logicalRight hleft =>
    obtain ⟨w₁, openings₁, rfl, hw₁, -⟩ :=
      hw.evaluate he.1 (fun p hp => hknown p (List.mem_append_left _ hp)) hleft
    exact begins_evaluate hw₁ he.2 fun p hp => hknown p (List.mem_append_right _ hp)
  | assign => exact begins_evaluate hw he.2.1 fun p hp => hknown p (List.mem_append_left _ hp)
  | callee => exact begins_evaluate hw he.1 fun p hp => hknown p (List.mem_append_left _ hp)
  | arguments hcallee =>
    obtain ⟨w₁, openings₁, rfl, hw₁, -⟩ :=
      hw.evaluate he.1 (fun p hp => hknown p (List.mem_append_left _ hp)) hcallee
    exact ⟨w₁, openings₁, rfl, hw₁.sound, hw₁.surveyed, n, d, nest, hw₁, he.2,
      fun p hp => hknown p (List.mem_append_right _ hp)⟩
  | call hcallee harguments =>
    obtain ⟨w₁, openings₁, rfl, hw₁, -, hf⟩ :=
      hw.evaluate he.1 (fun p hp => hknown p (List.mem_append_left _ hp)) hcallee
    obtain ⟨w₂, openings₂, rfl, hw₂, hfollows, hvs⟩ :=
      hw₁.evaluateAll he.2 (fun p hp => hknown p (List.mem_append_right _ hp)) harguments
    exact ⟨w₂, openings₂, rfl, hw₂.sound, hw₂.surveyed, hf.follow hfollows, hvs⟩
  | getObject => exact begins_evaluate hw he hknown
  | @property _ object _ _ _ _ hobject =>
    obtain ⟨w₁, openings₁, rfl, hw₁, -⟩ := hw.evaluate (e := object) he hknown hobject
    exact ⟨w₁, openings₁, rfl, hw₁.sound, hw₁.surveyed, trivial⟩
  | setObject => exact begins_evaluate hw he.2 fun p hp => hknown p (List.mem_append_left _ hp)
  | setValue hobject =>
    obtain ⟨w₁, openings₁, rfl, hw₁, -⟩ :=
      hw.evaluate he.2 (fun p hp => hknown p (List.mem_append_left _ hp)) hobject
    exact begins_evaluate hw₁ he.1 fun p hp => hknown p (List.mem_append_right _ hp)

theorem Begins.of_evaluateAll {es : List Expr} (h : Begins a known (.evaluateAll fuel es) m)
    (hleads : Leads (.evaluateAll fuel es) m t m') : Begins a known t m' := by
  obtain ⟨w, openings, rfl, -, -, n, d, nest, hw, hes, hknown⟩ := h
  cases hleads with
  | head => exact begins_evaluate hw hes.1 fun p hp => hknown p (List.mem_append_left _ hp)
  | tail hhead =>
    obtain ⟨w₁, openings₁, rfl, hw₁, -⟩ :=
      hw.evaluate hes.1 (fun p hp => hknown p (List.mem_append_left _ hp)) hhead
    exact ⟨w₁, openings₁, rfl, hw₁.sound, hw₁.surveyed, n, d, nest, hw₁, hes.2,
      fun p hp => hknown p (List.mem_append_right _ hp)⟩

theorem Begins.of_call {f : Value} {vs : List Value} {paren : Position}
    (h : Begins a known (.call fuel f vs paren) m) (hleads : Leads (.call fuel f vs paren) m t m') :
    Begins a known t m' := by
  obtain ⟨w, openings, rfl, hsound, hsurveyed, hf, hvs⟩ := h
  cases hleads with
  | function harity => exact ⟨w, openings, rfl, hsound, hsurveyed, hf, hvs, harity⟩
  | cls harity =>
    refine ⟨w, openings, rfl, hsound, hsurveyed, hvs, fun method hmethod => ?_⟩
    rw [Exec.arity?, hmethod] at harity
    exact (Option.some.inj harity).symm

theorem Begins.of_instantiate {id : ClassId} {vs : List Value}
    (h : Begins a known (.instantiate fuel id vs) m) (hleads : Leads (.instantiate fuel id vs) m t m') :
    Begins a known t m' := by
  obtain ⟨w, openings, rfl, hsound, hsurveyed, hvs, hlength⟩ := h
  cases hleads with
  | initializer hmethod =>
    obtain ⟨w₁, openings₁, hmachine₁, hsound₁, hsurveyed₁, hfollows₁, hclasses, -⟩ :=
      (Lexical.newObject_surveys id).reaches (Lexical.newObject_safe id)
        (Lexical.lift_erases (Exec.updateHeap fun h => h.newObject id)) hsound hsurveyed (updateHeap_run _ _)
    have hheap : (w.machine.heap.newObject id).2 = w₁.machine.heap := by rw [hmachine₁]
    rw [hheap] at hmethod ⊢
    have hknown := hsound₁.holds.method? hmethod
    obtain ⟨w₂, openings₂, hmachine₂, hsound₂, hsurveyed₂, hfollows₂, ⟨hf, hdeclaration⟩, hspots⟩ :=
      (Lexical.bindReceiver_surveys _ hknown (hsurveyed₁.holds.method? hmethod)).reaches
        (Lexical.bindReceiver_safe (w.machine.heap.newObject id).1 hknown)
        (Lexical.bindReceiver_erases _ _) hsound₁ hsurveyed₁ (updateHeap_run _ _)
    refine ⟨w₂, openings₂, ?_, hsound₂, hsurveyed₂, ⟨hf, hspots⟩,
      fun v hv => ((hvs v hv).follow hfollows₁).follow hfollows₂, ?_⟩
    · rw [hmachine₂, hmachine₁]
    · refine (hlength _ ?_).trans (congrArg (·.parameters.length) hdeclaration.symm)
      exact (Heap.method?_congr hclasses id initializerName).symm.trans hmethod

theorem Begins.of_invoke {f : Closure} {vs : List Value} (h : Begins a known (.invoke fuel f vs) m)
    (hleads : Leads (.invoke fuel f vs) m t m') : Begins a known t m' := by
  obtain ⟨w, openings, rfl, hsound, hsurveyed, ⟨hf, hfspots⟩, hvs, hlength⟩ := h
  obtain ⟨outer, n, houter, hcovers, haddressed⟩ := hf
  obtain ⟨outer', nest, houter', hopened, -, hspots⟩ := hfspots
  obtain rfl : outer = outer' := Option.some.inj (houter.symm.trans houter')
  have hcharts := hsound.charts _ _ _ houter
  obtain ⟨⟨id, name, parameters, body⟩, frame, isInitializer⟩ := f
  obtain ⟨hplain, hbody⟩ := haddressed
  cases hleads with
  | body =>
    obtain ⟨w₁, hmachine, hw₁⟩ := Station.push (.function ⟨id, name, parameters, body⟩) hsound hsurveyed
      hcovers hcharts.frame (Lexical.charts_lt hcharts hsound.nonempty)
      (hcharts.enclosed.push_parameters hlength hplain)
      (fun _ _ => ⟨Lexical.opened_push hsurveyed rfl hopened, fun h => by cases h⟩)
      (fun b hb => ⟨Exec.argumentBindings_each parameters (fun v hv => (hvs v hv).1) b hb,
        Exec.argumentBindings_each parameters (fun v hv => (hvs v hv).2) b hb⟩)
      (fun x hx => .inl ((Display.argumentBindings_lookup hlength x).mp hx)) (fun _ h => by cases h)
      fun h => by cases h
    exact ⟨w₁, _, hmachine, hw₁.sound, hw₁.surveyed, n, _, _, hw₁,
      Display.steady_push (Lexical.steady_parameters parameters) outer, hbody,
      Lexical.allowed_push fun _ hx => .inr hx, hspots⟩

theorem Begins.of_execute {s : Stmt} (h : Begins a known (.execute fuel s) m)
    (hleads : Leads (.execute fuel s) m t m') : Begins a known t m' := by
  obtain ⟨w, openings, rfl, hsound, hsurveyed, n, d, nest, hw, hsteady, hs, hallowed, hknown⟩ := h
  cases hleads with
  | expression => exact begins_evaluate hw hs hknown
  | print => exact begins_evaluate hw hs hknown
  | @initialValue _ name e =>
    obtain ⟨_, hfresh, he⟩ := hs
    have hknown : ∀ p ∈ e.spots nest (Scope.enter name.name .declared d.scopes), known p := hknown
    rw [← Display.scopes_enter] at he hknown
    exact begins_evaluate ⟨hsound, hsurveyed, hw.place.enter hfresh, hw.post.enter name.name .declared⟩
      he hknown
  | @block _ body =>
    have henclosed := hw.place.standing.enclosed hsteady
    obtain ⟨w₁, hmachine, hw₁⟩ := Station.push (.block body) hsound hsurveyed hw.place.covers hw.place.frame
      (hw.place.frame ▸ hw.place.lt hsound) henclosed.push_block
      (fun _ hmachine => hw.post.push_block hw.place hsurveyed hmachine) (by simp) (by simp)
      (fun _ h => by cases h) fun h => by cases h
    exact ⟨w₁, _, hmachine, hw₁.sound, hw₁.surveyed, n, _, _, hw₁, Display.steady_push (by simp) d, hs,
      Lexical.allowed_push fun _ hx => hx, hknown⟩
  | ifCondition => exact begins_evaluate hw hs.1 fun p hp => hknown p (List.mem_append_left _ hp)
  | ifThen hcondition hv =>
    obtain ⟨w₁, openings₁, rfl, hw₁, -⟩ :=
      hw.evaluate hs.1 (fun p hp => hknown p (List.mem_append_left _ hp)) hcondition
    exact begins_branch hw₁ hsteady hs.2.2 hs.2.1 fun p hp => hknown p (List.mem_append_right _ hp)
  | ifElseCondition => exact begins_evaluate hw hs.1 fun p hp => hknown p (List.mem_append_left _ hp)
  | ifElseThen hcondition hv =>
    obtain ⟨w₁, openings₁, rfl, hw₁, -⟩ :=
      hw.evaluate hs.1 (fun p hp => hknown p (List.mem_append_left _ hp)) hcondition
    exact begins_branch hw₁ hsteady hs.2.1.2 hs.2.1.1
      fun p hp => hknown p (List.mem_append_right _ (List.mem_append_left _ hp))
  | ifElseElse hcondition hv =>
    obtain ⟨w₁, openings₁, rfl, hw₁, -⟩ :=
      hw.evaluate hs.1 (fun p hp => hknown p (List.mem_append_left _ hp)) hcondition
    exact begins_branch hw₁ hsteady hs.2.2.2 hs.2.2.1
      fun p hp => hknown p (List.mem_append_right _ (List.mem_append_right _ hp))
  | loop => exact ⟨w, openings, rfl, hsound, hsurveyed, n, d, nest, hw, hsteady, hs, hknown⟩
  | returnValue => exact begins_evaluate hw hs hknown

theorem Begins.of_loop {condition : Expr} {body : Stmt} {increment : Option Expr}
    (h : Begins a known (.loop fuel condition body increment) m)
    (hleads : Leads (.loop fuel condition body increment) m t m') : Begins a known t m' := by
  obtain ⟨w, openings, rfl, hsound, hsurveyed, n, d, nest, hw, hsteady, hs, hknown⟩ := h
  have hloop : ∀ {fuel openings w}, Station a known n d nest openings w →
      Begins a known (.loop fuel condition body increment) w.machine := fun {_ _ w} hw =>
    ⟨w, _, rfl, hw.sound, hw.surveyed, n, d, nest, hw, hsteady, hs, hknown⟩
  obtain ⟨hcondition, hdeclared, hbody, hincrement⟩ := Lexical.addressed_loop hs
  obtain ⟨hconditionKnown, hbodyKnown, hincrementKnown⟩ := Lexical.spots_loop hknown
  cases hleads with
  | loopCondition => exact begins_evaluate hw hcondition hconditionKnown
  | loopBody hrun hv =>
    obtain ⟨w₁, openings₁, rfl, hw₁, -⟩ := hw.evaluate hcondition hconditionKnown hrun
    exact begins_branch hw₁ hsteady hbody hdeclared hbodyKnown
  | increment hrun hv hround hc =>
    obtain ⟨w₁, openings₁, rfl, hw₁, -⟩ := hw.evaluate hcondition hconditionKnown hrun
    obtain ⟨w₂, openings₂, rfl, hw₂⟩ := hw₁.pass hsteady hbody hdeclared hbodyKnown hround
    exact begins_evaluate hw₂ (hincrement _ rfl) (hincrementKnown _ rfl)
  | again hrun hv hround hc =>
    obtain ⟨w₁, openings₁, rfl, hw₁, -⟩ := hw.evaluate hcondition hconditionKnown hrun
    obtain ⟨w₂, openings₂, rfl, hw₂⟩ := hw₁.pass hsteady hbody hdeclared hbodyKnown hround
    exact hloop hw₂
  | incremented hrun hv hround hc hnext =>
    obtain ⟨w₁, openings₁, rfl, hw₁, -⟩ := hw.evaluate hcondition hconditionKnown hrun
    obtain ⟨w₂, openings₂, rfl, hw₂⟩ := hw₁.pass hsteady hbody hdeclared hbodyKnown hround
    obtain ⟨w₃, openings₃, rfl, hw₃, -⟩ := hw₂.evaluate (hincrement _ rfl) (hincrementKnown _ rfl) hnext
    exact hloop hw₃

theorem Begins.of_executeAll {body : List Stmt} (h : Begins a known (.executeAll fuel body) m)
    (hleads : Leads (.executeAll fuel body) m t m') : Begins a known t m' := by
  obtain ⟨w, openings, rfl, hsound, hsurveyed, n, d, nest, hw, hsteady, hbody, hallowed, hknown⟩ := h
  cases hleads with
  | @first _ s rest =>
    exact begins_execute hw hsteady hbody.1 (Lexical.allowed_head hallowed)
      fun p hp => hknown p (List.mem_append_left _ hp)
  | @next _ s rest _ _ hfirst =>
    obtain ⟨w₁, openings₁, rfl, hw₁, -⟩ := hw.execute hsteady hbody.1 (Lexical.allowed_head hallowed)
      (fun p hp => hknown p (List.mem_append_left _ hp)) hfirst
    refine ⟨w₁, openings₁, rfl, hw₁.sound, hw₁.surveyed, n, d.after s, nest, hw₁,
      Lexical.steady_after hsteady, ?_, Lexical.allowed_tail hallowed, ?_⟩
    · rw [Display.scopes_after]
      exact hbody.2
    · rw [Display.scopes_after]
      exact fun p hp => hknown p (List.mem_append_right _ hp)

/-- What begins in a surveyed world comes to nothing but what does so too. -/
theorem Begins.leads (h : Begins a known t m) {t' : Task} (hleads : Leads t m t' m') :
    Begins a known t' m' := by
  cases t with
  | evaluate fuel e => exact h.of_evaluate hleads
  | evaluateAll fuel es => exact h.of_evaluateAll hleads
  | property v name => cases hleads
  | call fuel f vs paren => exact h.of_call hleads
  | instantiate fuel id vs => exact h.of_instantiate hleads
  | invoke fuel f vs => exact h.of_invoke hleads
  | execute fuel s => exact h.of_execute hleads
  | loop fuel condition body increment => exact h.of_loop hleads
  | executeAll fuel body => exact h.of_executeAll hleads

end Task

/-! ### Sessions -/

/-- The spot is in one of the programs that the events execute, which the session accepts when its turn
comes. -/
def Session.Knows (s : Session) (events : List Session.Event) (p : Spot) : Prop :=
  ∃ before e after x program, events = before ++ e :: after ∧ (s.follow before).2.executed e = some x ∧
    (s.follow before).2.Accepts x.source program ∧ p ∈ Stmt.allSpots [] [] program

/-- While the session executes the program, the task begins in the state: it is a statement of the program,
which is accepted, and those before it have led to the state; or it is a part of such a task. -/
inductive Session.Evaluates (s : Session) (x : Session.Executed) : Task → Machine → Prop where
  | statement {earlier stmt rest m} (haccepts : s.Accepts x.source (earlier ++ stmt :: rest))
    (hearlier : (executeProgram x.steps earlier).run (s.recorded (parse (tokens x.source) s.nextId).nextId
      (resolve (earlier ++ stmt :: rest)).lookups).machine = .ok () m) :
    Evaluates s x (.execute x.steps stmt) m
  | part {t m t' m'} : Evaluates s x t m → Leads t m t' m' → Evaluates s x t' m'

/-- While the events happen one after the other, the task begins in the state. -/
def Session.Does (s : Session) (events : List Session.Event) (t : Task) (m : Machine) : Prop :=
  ∃ before e after x, events = before ++ e :: after ∧ (s.follow before).2.executed e = some x ∧
    (s.follow before).2.Evaluates x t m

/-- The statements at the beginning of a program lead to a world in which the others begin. -/
theorem Station.executeProgram {a : Atlas} {known : Spot → Prop} {n : Notes} {openings : List Opening}
    {w : World} (h : Station a known n [] [] openings w) {steps : Nat} {earlier rest : List Stmt}
    (hprogram : Stmt.AllAddressed n [] (earlier ++ rest))
    (hknown : ∀ p ∈ Stmt.allSpots [] [] (earlier ++ rest), known p) {m : Machine}
    (hrun : (LoxLang.executeProgram steps earlier).run w.machine = .ok () m) :
    ∃ w' openings', w'.machine = m ∧ Station a known n [] [] openings' w' ∧
      Stmt.AllAddressed n [] rest ∧ ∀ p ∈ Stmt.allSpots [] [] rest, known p := by
  induction earlier generalizing w openings with
  | nil =>
    obtain rfl : w.machine = m := by cases hrun; rfl
    exact ⟨w, openings, rfl, h, hprogram, hknown⟩
  | cons s earlier ih =>
    rw [LoxLang.executeProgram, EStateM.run_bind] at hrun
    cases hs : (LoxLang.execute steps s).run w.machine with
    | error e m₁ =>
      rw [hs] at hrun
      cases hrun
    | ok c m₁ =>
      rw [hs] at hrun
      have hsteady : Display.Steady [] := fun layer hlayer => by cases hlayer
      obtain ⟨w₁, openings₁, rfl, hw₁, -⟩ := h.execute hsteady hprogram.1 (fun o ho => by cases ho)
        (fun p hp => hknown p (List.mem_append_left _ hp)) hs
      have hrest := hprogram.2
      rw [Scope.after_global] at hrest
      have hdisplay : Display.after s [] = [] := by
        unfold Display.after
        cases s.declared? <;> rfl
      rw [hdisplay] at hw₁
      refine ih hw₁ hrest (fun p hp => hknown p (List.mem_append_right _ ?_)) hrun
      rw [Scope.after_global]
      exact hp

theorem RecordedSession.Surveyed.begins {known : Spot → Prop} {s : RecordedSession} (hs : s.Surveyed known)
    {source : String} {steps : Nat} {earlier rest : List Stmt} {stmt : Stmt}
    (haccepts : s.session.Accepts source (earlier ++ stmt :: rest))
    (hknown : ∀ p ∈ Stmt.allSpots [] [] (earlier ++ stmt :: rest), known p) {m : Machine}
    (hrun : (LoxLang.executeProgram steps earlier).run
      (s.session.recorded (parse (tokens source) s.session.nextId).nextId
        (resolve (earlier ++ stmt :: rest)).lookups).machine = .ok () m) :
    ∃ a, Task.Begins a known (.execute steps stmt) m := by
  obtain ⟨⟨a, hs⟩, openings, hw⟩ := hs
  obtain ⟨hnext, hprogram⟩ := parse_yields (tokens_words source) s.nextId
  obtain ⟨n, hlookups, hmentions, hsites, haddressed⟩ := resolve_addresses hprogram.1 haccepts.scopes
  have hresolved := hs.resolved n.sites hprogram hnext hsites
  have hcovers := hs.covers hprogram hlookups hmentions hsites
  have hstatements : (parse (tokens source) s.nextId).statements = earlier ++ stmt :: rest :=
    haccepts.statements
  rw [hstatements] at hresolved hcovers haddressed
  have hstation : Station _ known n [] [] openings _ :=
    ⟨hresolved.world, hw.record _, ⟨hcovers, .nil _, hs.current.symm⟩, .nil, trivial⟩
  obtain ⟨w, openings', rfl, hw', hrest, hrestKnown⟩ := hstation.executeProgram haddressed hknown hrun
  exact ⟨_, Task.begins_execute hw' (fun layer hlayer => by cases hlayer) hrest.1
    (fun o ho => by cases ho) fun p hp => hrestKnown p (List.mem_append_left _ hp)⟩

/-- The sessions with and without a record accept the same programs. -/
theorem RecordedSession.follow_new (files : Files) (includeDir : Option String) (input : List InputLine)
    (clock : Clock) (regex : Pattern.Engine) (events : List Session.Event) :
    ((Session.new files includeDir input clock regex).follow events).2 =
      ((new files includeDir input clock regex).follow events).2.session :=
  congrArg Prod.snd (follow_session events (new files includeDir input clock regex))

section

variable (files : Files) (includeDir : Option String) (input : List InputLine) (clock : Clock)
  (regex : Pattern.Engine) (events : List Session.Event)

/-- At each point between the events a session is surveyed: its code is at spots of programs that it has
accepted. -/
theorem RecordedSession.follow_surveyed {before after : List Session.Event} (hevents : events = before ++ after) :
    ((new files includeDir input clock regex).follow before).2.Surveyed
      ((Session.new files includeDir input clock regex).Knows events) := by
  refine (new_surveyed files includeDir input clock regex).follow before ?_
  rintro earlier e later x program rfl hx haccepts p hp
  refine ⟨earlier, e, later ++ after, x, program, by simp [hevents], ?_, ?_, hp⟩
  · rw [follow_new]
    exact hx
  · rw [follow_new]
    exact haccepts

/-- Every task of a session begins in a surveyed world. -/
theorem Session.Does.begins {t : Task} {m : Machine}
    (h : (Session.new files includeDir input clock regex).Does events t m) :
    ∃ a, t.Begins a ((Session.new files includeDir input clock regex).Knows events) m := by
  obtain ⟨before, e, after, x, hevents, hx, ht⟩ := h
  have hsurveyed := RecordedSession.follow_surveyed files includeDir input clock regex events hevents
  have hknown : ∀ program, ((Session.new files includeDir input clock regex).follow before).2.Accepts x.source
      program → ∀ p ∈ Stmt.allSpots [] [] program,
        (Session.new files includeDir input clock regex).Knows events p := fun program haccepts p hp =>
    ⟨before, e, after, x, program, hevents, hx, haccepts, hp⟩
  rw [RecordedSession.follow_new] at ht hknown
  induction ht with
  | statement haccepts hearlier => exact hsurveyed.begins haccepts (hknown _ haccepts) hearlier
  | part _ hleads ih =>
    obtain ⟨a, hbegins⟩ := ih
    exact ⟨a, hbegins.leads hleads⟩

end

end LoxLang
