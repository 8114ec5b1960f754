import LoxLang.Proofs.Scope.Steps

/-!
Lexical evaluation keeps worlds sound. The induction is on the depth that is left, in step with the rules;
at every point the display stands for the frames that code runs in, because a statement adds to the
innermost frame the name it declares and nothing else, and a call goes on under the display that was kept
for its function.
-/

namespace LoxLang.Lexical

open Account (lift inFrame)

variable {a : Atlas} {n : Notes} {d : Display} {w w' : World}

/-! ### Behind a statement -/

theorem plain_of_addressed {s : Stmt} {scopes : List Scope} (hs : s.Addressed n scopes) :
    ∀ name ∈ s.declared?, Plain name := by
  intro name hname
  cases s with
  | var x e =>
    obtain rfl : x.name = name := by simpa [Stmt.declared?] using hname
    cases e <;> exact hs.1
  | function d =>
    obtain rfl : d.name.name = name := by simpa [Stmt.declared?] using hname
    exact hs.1
  | classDecl x superclass methods =>
    obtain rfl : x.name = name := by simpa [Stmt.declared?] using hname
    cases superclass <;> exact hs.1
  | _ => cases hname

/-- The next statement finds its scopes in place. -/
theorem Place.after (h : Place a n d w) {s : Stmt} (hs : s.Addressed n d.scopes)
    (hgrows : w.Grows s.declared?.toList w') : Place a n (d.after s) w' := by
  have hplain := plain_of_addressed hs
  unfold Display.after
  cases hname : s.declared? with
  | none =>
    rw [hname] at hgrows
    exact h.grows hgrows
  | some name =>
    rw [hname] at hgrows
    exact h.declare (hplain name hname) hgrows

theorem steady_after {s : Stmt} (hsteady : d.Steady) : (d.after s).Steady := by
  unfold Display.after
  cases s.declared? with
  | none => exact hsteady
  | some name => exact Display.steady_declare hsteady name

/-- An initializer runs in the middle of the declaration of its variable. -/
theorem Place.enter (h : Place a n d w) {name : String} (hfresh : Scope.Fresh name d.scopes) :
    Place a n (d.enter name .declared) w :=
  ⟨h.covers, h.standing.enter hfresh, (Display.frame_enter _ _ d).trans h.frame⟩

theorem superclassOf_safe {r : Reference} (hexact : Visit.Exact ⟨.read r, d, w.machine⟩) :
    Safe a (superclassOf d r) w [] fun _ _ => True := by
  have h : Safe a (superclassOf d r) w ([] ++ []) fun _ _ => True := by
    refine (read_safe hexact).bind fun v _ _ _ => ?_
    cases v with
    | cls id => exact Safe.pure trivial
    | _ => exact fail_safe _ _
  exact h

theorem exhausted_inside {α : Type} {good : α → World → Prop} :
    SafeInside a (lift (Exec.exhausted : Exec α)) w good :=
  have h : Safe a (lift (Exec.exhausted : Exec α)) w [] good := exhausted_safe
  SafeInside.of_safe h

/-- A body in a new scope begins in place. -/
theorem Place.push {scope : Scope} {bindings : Bindings Value} {outer : Display} {w w₁ : World}
    (hcovers : a.Covers w.machine.hops n)
    (hstanding : Display.Standing (w.machine.heap.newFrame (some outer.frame) bindings).2
      (⟨(w.machine.heap.newFrame (some outer.frame) bindings).1, scope⟩ :: outer))
    (hmachine : w₁.machine = { w.machine with
      heap := (w.machine.heap.newFrame (some outer.frame) bindings).2
      current := (w.machine.heap.newFrame (some outer.frame) bindings).1 }) :
    Place a n (⟨(w.machine.heap.newFrame (some outer.frame) bindings).1, scope⟩ :: outer) w₁ :=
  ⟨by rw [hmachine]; exact hcovers, by rw [hmachine]; exact hstanding, by rw [hmachine]; rfl⟩

/-- The body of a function runs under the display that was kept for it. -/
theorem runBody_safe {f : Closure} {vs : List Value} {run : Display → Lexical Completion}
    (hf : KnownFunction a w.machine.hops w.captured f) (hvs : ∀ v ∈ vs, w.Knows a v)
    (hlength : vs.length = f.declaration.parameters.length)
    (hrun : ∀ {n d w}, Place a n d w → d.Steady → Stmt.AllAddressed n d.scopes f.declaration.body →
      SafeInside a (run d) w fun c w' => w'.KnowsResult a c) :
    Safe a (runBody f vs run) w [] fun c w' => w'.KnowsResult a c := by
  obtain ⟨outer, n, houter, hcovers, haddressed⟩ := hf
  intro hw
  have hcharts := hw.charts _ _ _ houter
  refine ((displayOf_safe houter).bind fun d w₁ _ hd => ?_) hw
  obtain ⟨rfl, rfl⟩ := hd
  obtain ⟨⟨id, name, parameters, body⟩, frame, isInitializer⟩ := f
  obtain ⟨hplain, hbody⟩ := haddressed
  obtain rfl : d.frame = frame := hcharts.frame
  refine scoped_safe (Exec.argumentBindings_each parameters hvs) fun w₂ hmachine _ => ?_
  have hplace := Place.push hcovers (hcharts.enclosed.push_parameters hlength hplain) hmachine
  refine hrun hplace (Display.steady_push (fun x => ?_) d) hbody
  rw [Display.parameterScope_lookup]
  split <;> simp

/-! ### Evaluation -/

mutual

theorem evaluate_safe : ∀ (fuel : Nat) {n : Notes} {d : Display} {w : World} (e : Expr),
    Place a n d w → e.Addressed n d.scopes →
      Safe a (keeper.evaluate fuel d e) w [] fun v w' => w'.Knows a v
  | 0, _, _, _, _, _, _ => exhausted_safe
  | fuel + 1, n, d, w, e, hplace, he => by
    cases e with
    | constant value => exact Safe.pure (Value.Each.ofConstant value)
    | grouping inner => exact evaluate_safe fuel inner hplace he
    | unary op position operand =>
      exact (evaluate_safe fuel operand hplace he).bind fun v _ _ _ => unary_safe op position v
    | binary left op position right =>
      refine (evaluate_safe fuel left hplace he.1).bind fun x w₁ hgrows _ => ?_
      exact (evaluate_safe fuel right (hplace.grows hgrows) he.2).bind fun y _ _ _ =>
        binary_safe op position x y
    | logical left op right =>
      refine (evaluate_safe fuel left hplace he.1).bind fun x w₁ hgrows hx => ?_
      split
      · exact Safe.pure hx
      · exact evaluate_safe fuel right (hplace.grows hgrows) he.2
    | read r => exact read_safe (hplace.reads he.1 he.2.1 he.2.2)
    | assign r value =>
      refine (evaluate_safe fuel value hplace he.2.1).bind fun v w₁ hgrows hv => ?_
      have hplace₁ := hplace.grows hgrows
      refine (assign_safe he.1 (hplace₁.assigns he.2.2) hv).bind fun _ w₂ hgrows₂ _ => ?_
      exact Safe.pure (hgrows₂.knows hv)
    | call callee paren arguments =>
      refine (evaluate_safe fuel callee hplace he.1).bind fun f w₁ hgrows₁ hf => ?_
      refine (evaluateAll_safe fuel arguments (hplace.grows hgrows₁) he.2).bind
        fun vs w₂ hgrows₂ hvs => ?_
      exact call_safe fuel f vs paren (hgrows₂.knows hf) hvs
    | get object name =>
      exact (evaluate_safe fuel object hplace he).bind fun v _ _ _ => property_safe v name
    | set object name value =>
      refine (evaluate_safe fuel object hplace he.2).bind fun v w₁ hgrows₁ _ => ?_
      cases v with
      | object id =>
        refine (evaluate_safe fuel value (hplace.grows hgrows₁) he.1).bind fun v w₂ _ hv => ?_
        exact (setField_safe id name.name hv).bind fun _ w₃ hgrows₃ _ => Safe.pure (hgrows₃.knows hv)
      | _ => exact fail_safe _ _
    | this id position =>
      obtain ⟨hr, k, hk⟩ := he
      exact read_safe (hplace.reads_receiver hr hk)
    | super id position method =>
      obtain ⟨hr, k, hk, hsuper⟩ := he
      exact superMethod_safe method (hplace.finds_superclass hr hk hsuper)

theorem evaluateAll_safe : ∀ (fuel : Nat) {n : Notes} {d : Display} {w : World} (es : List Expr),
    Place a n d w → Expr.AllAddressed n d.scopes es →
      Safe a (keeper.evaluateAll fuel d es) w [] fun vs w' => ∀ v ∈ vs, w'.Knows a v
  | 0, _, _, _, _, _, _ => exhausted_safe
  | _ + 1, _, _, _, [], _, _ => Safe.pure (by simp)
  | fuel + 1, n, d, w, e :: rest, hplace, hes => by
    refine (evaluate_safe fuel e hplace hes.1).bind fun v w₁ hgrows₁ hv => ?_
    refine (evaluateAll_safe fuel rest (hplace.grows hgrows₁) hes.2).bind fun vs w₂ hgrows₂ hvs => ?_
    refine Safe.pure fun u hu => ?_
    rcases List.mem_cons.mp hu with rfl | hu
    · exact hgrows₂.knows hv
    · exact hvs u hu

theorem call_safe : ∀ (fuel : Nat) {w : World} (f : Value) (vs : List Value) (paren : Position),
    w.Knows a f → (∀ v ∈ vs, w.Knows a v) →
      Safe a (keeper.call fuel f vs paren) w [] fun v w' => w'.Knows a v
  | 0, _, _, _, _, _, _ => by
    unfold Keeper.call
    exact exhausted_safe
  | fuel + 1, w, f, vs, paren, hf, hvs => by
    refine Safe.get_bind fun hw => ?_
    cases harity : Exec.arity? w.machine.heap f with
    | none => exact fail_safe _ _
    | some arity =>
      dsimp only
      split
      case isTrue => exact fail_safe _ _
      case isFalse hlength =>
        have hlength : vs.length = arity := Decidable.not_not.mp hlength
        cases f with
        | native f => exact callNative_safe f hvs paren
        | function f =>
          have harity : f.declaration.parameters.length = arity := Option.some.inj harity
          exact invoke_safe fuel f vs hf hvs (hlength.trans harity.symm)
        | cls id =>
          refine instantiate_safe fuel id vs hvs fun m hm => ?_
          rw [Exec.arity?, hm] at harity
          exact hlength.trans (Option.some.inj harity).symm
        | arrayMethod id method position => exact callArrayMethod_safe id method position hvs
        | _ => exact fail_safe _ _

theorem instantiate_safe : ∀ (fuel : Nat) {w : World} (id : ClassId) (vs : List Value),
    (∀ v ∈ vs, w.Knows a v) →
      (∀ m, w.machine.heap.method? id initializerName = some m →
        vs.length = m.declaration.parameters.length) →
      Safe a (keeper.instantiate fuel id vs) w [] fun v w' => w'.Knows a v
  | 0, _, _, _, _, _ => by
    unfold Keeper.instantiate
    exact exhausted_safe
  | fuel + 1, w, id, vs, hvs, hlength => by
    refine (newObject_safe id).bind fun object w₁ hgrows₁ hclasses => Safe.get_bind fun hw₁ => ?_
    cases hm : w₁.machine.heap.method? id initializerName with
    | none => exact Safe.pure trivial
    | some m =>
      refine (bindReceiver_safe object (hw₁.holds.method? hm)).bind fun f w₂ hgrows₂ hf => ?_
      have hm' : w.machine.heap.method? id initializerName = some m :=
        (Heap.method?_congr hclasses id initializerName).symm.trans hm
      have hlength : vs.length = f.declaration.parameters.length := by
        rw [hf.2]
        exact hlength m hm'
      refine (invoke_safe fuel f vs hf.1 (fun v hv => hgrows₂.knows (hgrows₁.knows (hvs v hv)))
        hlength).bind fun _ _ _ _ => Safe.pure trivial

theorem invoke_safe : ∀ (fuel : Nat) {w : World} (f : Closure) (vs : List Value),
    KnownFunction a w.machine.hops w.captured f → (∀ v ∈ vs, w.Knows a v) →
      vs.length = f.declaration.parameters.length →
        Safe a (keeper.invoke fuel f vs) w [] fun v w' => w'.Knows a v
  | 0, _, _, _, _, _, _ => by
    unfold Keeper.invoke
    exact exhausted_safe
  | fuel + 1, w, f, vs, hf, hvs, hlength => by
    have hbody : Safe a (keeper.runBody f vs fun d => keeper.executeAll fuel d f.declaration.body) w []
        fun c w' => w'.KnowsResult a c :=
      runBody_safe hf hvs hlength fun hplace hsteady hbody =>
        executeAll_safe fuel f.declaration.body hplace hsteady hbody
    refine hbody.bind fun c w₁ _ hc => ?_
    split
    · refine Safe.get_bind fun hw₁ => Safe.pure ?_
      cases hthis : w₁.machine.heap.ownValue? f.frame thisName with
      | none => trivial
      | some v => exact hw₁.holds.ownValue? hthis
    · cases c with
      | returned v => exact Safe.pure (hc v rfl)
      | _ => exact Safe.pure trivial

theorem execute_safe : ∀ (fuel : Nat) {n : Notes} {d : Display} {w : World} (s : Stmt),
    Place a n d w → d.Steady → s.Addressed n d.scopes →
      Safe a (keeper.execute fuel d s) w s.declared?.toList fun c w' => w'.KnowsResult a c
  | 0, _, _, _, _, _, _, _ => exhausted_safe
  | fuel + 1, n, d, w, s, hplace, hsteady, hs => by
    have hnormal : ∀ w : World, w.KnowsResult a .normal := fun _ _ h => by cases h
    cases s with
    | expression e => exact (evaluate_safe fuel e hplace hs).bind fun _ w₁ _ _ => Safe.pure (hnormal w₁)
    | print e =>
      refine (evaluate_safe fuel e hplace hs).bind fun v _ _ _ => ?_
      exact (print_safe v).bind fun _ w₁ _ _ => Safe.pure (hnormal w₁)
    | var name initializer =>
      cases initializer with
      | none =>
        exact (define_safe (v := .nil) hs.1 trivial).bind fun _ w₁ _ _ => Safe.pure (hnormal w₁)
      | some e =>
        obtain ⟨hname, hfresh, he⟩ := hs
        rw [← Display.scopes_enter] at he
        refine (evaluate_safe fuel e (hplace.enter hfresh) he).bind fun v w₁ _ hv => ?_
        exact (define_safe hname hv).bind fun _ w₂ _ _ => Safe.pure (hnormal w₂)
    | block body =>
      refine Safe.get_bind fun _ => ?_
      have hcurrent : (HasMachine.machine w).current = d.frame := hplace.frame.symm
      rw [hcurrent]
      refine scoped_safe (by simp) fun w₁ hmachine _ => ?_
      have henclosed := hplace.standing.enclosed hsteady
      exact executeAll_safe fuel body (Place.push hplace.covers henclosed.push_block hmachine)
        (Display.steady_push (by simp) d) hs
    | ifThen condition thenBranch =>
      refine (evaluate_safe fuel condition hplace hs.1).bind fun v w₁ hgrows _ => ?_
      split
      · have hthen := execute_safe fuel thenBranch (hplace.grows hgrows) hsteady hs.2.2
        rw [hs.2.1] at hthen
        exact hthen
      · exact Safe.pure (hnormal w₁)
    | ifElse condition thenBranch elseBranch =>
      refine (evaluate_safe fuel condition hplace hs.1).bind fun v w₁ hgrows _ => ?_
      split
      · have hthen := execute_safe fuel thenBranch (hplace.grows hgrows) hsteady hs.2.1.2
        rw [hs.2.1.1] at hthen
        exact hthen
      · have helse := execute_safe fuel elseBranch (hplace.grows hgrows) hsteady hs.2.2.2
        rw [hs.2.2.1] at helse
        exact helse
    | loop condition body increment => exact loop_safe fuel condition body increment hplace hsteady hs
    | breakLoop position => exact Safe.pure fun v hv => by cases hv
    | continueLoop position => exact Safe.pure fun v hv => by cases hv
    | function declaration =>
      obtain ⟨hname, _, hsite, haddressed⟩ := hs
      have hdeclare : Safe a (keeper.declareFunction d declaration) w [declaration.name.name] fun _ _ => True :=
        declareFunction_safe hplace hsteady hname hsite haddressed
      exact hdeclare.bind fun _ w₁ _ _ => Safe.pure (hnormal w₁)
    | returnValue position value =>
      cases value with
      | none =>
        refine Safe.pure fun v hv => ?_
        obtain rfl := Completion.returned.inj hv
        trivial
      | some e =>
        refine (evaluate_safe fuel e hplace hs).bind fun v w₁ _ hv => Safe.pure fun u hu => ?_
        obtain rfl := Completion.returned.inj hu
        exact hv
    | classDecl name superclass methods =>
      cases superclass with
      | none =>
        have hclass : Safe a (declareClass d name none methods) w [name.name] fun _ _ => True :=
          declareClass_safe hplace hsteady hs.1 hs.2.2
        exact hclass.bind fun _ w₁ _ _ => Safe.pure (hnormal w₁)
      | some superclass =>
        obtain ⟨hname, hfresh, ⟨hplain, hready, hmentions⟩, hmethods⟩ := hs
        rw [← Display.scopes_enter] at hready hmentions
        have hexact := (hplace.enter hfresh).reads hplain hready hmentions
        refine (superclassOf_safe hexact).bind fun c w₁ hgrows _ => ?_
        have hclass : Safe a (declareClass d name (some c) methods) w₁ [name.name] fun _ _ => True :=
          declareClass_safe (hplace.grows hgrows) hsteady hname hmethods
        exact hclass.bind fun _ w₂ _ _ => Safe.pure (hnormal w₂)

theorem loop_safe : ∀ (fuel : Nat) {n : Notes} {d : Display} {w : World} (condition : Expr)
    (body : Stmt) (increment : Option Expr), Place a n d w → d.Steady →
      (Stmt.loop condition body increment).Addressed n d.scopes →
        Safe a (keeper.loop fuel d condition body increment) w [] fun c w' => w'.KnowsResult a c
  | 0, _, _, _, _, _, _, _, _, _ => exhausted_safe
  | fuel + 1, n, d, w, condition, body, increment, hplace, hsteady, hs => by
    have hparts : condition.Addressed n d.scopes ∧ body.declared? = none ∧ body.Addressed n d.scopes ∧
        ∀ e ∈ increment, e.Addressed n d.scopes := by
      cases increment with
      | none => exact ⟨hs.1, hs.2.1, hs.2.2, by simp⟩
      | some e => exact ⟨hs.1, hs.2.1.1, hs.2.1.2, by simpa using hs.2.2⟩
    obtain ⟨hcondition, hdeclared, hbody, hincrement⟩ := hparts
    have hagain : ∀ {w : World}, Place a n d w → Safe a (match increment with
        | none => keeper.loop fuel d condition body increment
        | some e => keeper.evaluate fuel d e >>= fun _ => keeper.loop fuel d condition body increment) w []
        fun c w' => w'.KnowsResult a c := by
      intro w hplace
      cases increment with
      | none => exact loop_safe fuel condition body none hplace hsteady hs
      | some e =>
        refine (evaluate_safe fuel e hplace (hincrement e rfl)).bind fun _ w₁ hgrows _ => ?_
        exact loop_safe fuel condition body (some e) (hplace.grows hgrows) hsteady hs
    refine (evaluate_safe fuel condition hplace hcondition).bind fun v w₁ hgrows₁ _ => ?_
    have hplace₁ := hplace.grows hgrows₁
    split
    · have hround := execute_safe fuel body hplace₁ hsteady hbody
      rw [hdeclared] at hround
      refine hround.bind fun c w₂ hgrows₂ hc => ?_
      cases c with
      | broke => exact Safe.pure fun v hv => by cases hv
      | returned v => exact Safe.pure hc
      | normal => exact hagain (hplace₁.grows hgrows₂)
      | continued => exact hagain (hplace₁.grows hgrows₂)
    · exact Safe.pure fun v hv => by cases hv

theorem executeAll_safe : ∀ (fuel : Nat) {n : Notes} {d : Display} {w : World} (body : List Stmt),
    Place a n d w → d.Steady → Stmt.AllAddressed n d.scopes body →
      SafeInside a (keeper.executeAll fuel d body) w fun c w' => w'.KnowsResult a c
  | 0, _, _, _, _, _, _, _ => exhausted_inside
  | _ + 1, _, _, _, [], _, _, _ => SafeInside.of_safe (Safe.pure fun v hv => by cases hv)
  | fuel + 1, n, d, w, s :: rest, hplace, hsteady, hbody => by
    refine SafeInside.bind (execute_safe fuel s hplace hsteady hbody.1) fun c w₁ hgrows hc => ?_
    cases c with
    | normal =>
      refine executeAll_safe fuel rest (hplace.after hbody.1 hgrows) (steady_after hsteady) ?_
      change Stmt.AllAddressed n (d.after s).scopes rest
      rw [Display.scopes_after]
      exact hbody.2
    | _ => exact SafeInside.of_safe (Safe.pure hc)

end

end LoxLang.Lexical
