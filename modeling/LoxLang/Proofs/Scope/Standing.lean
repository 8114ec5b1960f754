import LoxLang.Proofs.Heap.Holds
import LoxLang.Proofs.Scope.Addressed

/-!
How displays fit the heap. The frames of a display are linked by their parents, and every name that is
declared in a scope is bound in its frame; in the innermost one, where declarations are still going on,
exactly the names whose declarations are done are bound. So the distance at which the resolver finds a name
among the scopes leads to the frame that binds it.
-/

namespace LoxLang

open Resolver (hopsTo?)
open Lexical (receiverScope superclassScope parameterScope)

/-- What a scope binds to `this` is an object, and what it binds to `super` is a class. -/
def Fitting (x : String) (v : Value) : Prop :=
  (x = thisName → ∃ id, v = .object id) ∧ (x = superName → ∃ id, v = .cls id)

theorem fitting_of_plain {x : String} {v : Value} (hx : Plain x) : Fitting x v :=
  ⟨fun h => absurd h hx.1, fun h => absurd h hx.2⟩

/-- The frame of a scope binds a name. -/
def Layer.Binds (h : Heap) (layer : Layer) (x : String) : Prop :=
  ∃ v, h.ownValue? layer.frame x = some v ∧ Fitting x v

namespace Display

variable {h h' : Heap} {d : Display} {layer : Layer} {outer : Display} {name x : String}

/-! ### Scopes of displays -/

@[simp] theorem scopes_nil : scopes [] = [] := rfl

@[simp] theorem scopes_cons : scopes (layer :: outer) = layer.scope :: scopes outer := rfl

@[simp] theorem scopes_enter (name : String) (status : Scope.Status) (d : Display) :
    (d.enter name status).scopes = Scope.enter name status d.scopes := by
  cases d <;> rfl

@[simp] theorem scopes_declare (name : String) (d : Display) :
    (d.declare name).scopes = Scope.declare name d.scopes := by
  simp [declare, Scope.declare]

@[simp] theorem scopes_after (s : Stmt) (d : Display) :
    (d.after s).scopes = Scope.after s d.scopes := by
  unfold after Scope.after
  cases s.declared? with
  | none => rfl
  | some name => exact scopes_declare name d

@[simp] theorem frame_enter (name : String) (status : Scope.Status) (d : Display) :
    (d.enter name status).frame = d.frame := by
  cases d <;> rfl

@[simp] theorem frame_declare (name : String) (d : Display) : (d.declare name).frame = d.frame := by
  simp [declare]

@[simp] theorem frame_after (s : Stmt) (d : Display) : (d.after s).frame = d.frame := by
  unfold after
  cases s.declared? with
  | none => rfl
  | some name => exact frame_declare name d

/-! ### Frames of displays -/

/-- Each frame is inside the one of the next scope, and the outermost one is inside the globals. -/
def Chained (h : Heap) : Display → Prop
  | [] => True
  | layer :: outer => h.parent? layer.frame = some (frame outer) ∧ Chained h outer

theorem Chained.grows {f : FrameId} {names : List String} (hd : d.Chained h)
    (hgrows : Heap.Grows f names h h') : d.Chained h' := by
  induction d with
  | nil => trivial
  | cons layer outer ih =>
    refine ⟨?_, ih hd.2⟩
    rw [hgrows.parent layer.frame (Heap.lt_of_parent? hd.1)]
    exact hd.1

/-- A frame determines the frames around it. -/
theorem Chained.frames_unique (hglobals : h.parent? .globals = none) {d' : Display}
    (hd : d.Chained h) (hd' : d'.Chained h) (hframe : d.frame = d'.frame) :
    d.map Layer.frame = d'.map Layer.frame := by
  induction d generalizing d' with
  | nil =>
    cases d' with
    | nil => rfl
    | cons layer' outer' =>
      have : layer'.frame = .globals := hframe.symm
      rw [Chained, this, hglobals] at hd'
      cases hd'.1
  | cons layer outer ih =>
    cases d' with
    | nil =>
      have : layer.frame = .globals := hframe
      rw [Chained, this, hglobals] at hd
      cases hd.1
    | cons layer' outer' =>
      have heq : layer.frame = layer'.frame := hframe
      have hparents : some (frame outer) = some (frame outer') := by
        rw [← hd.1, ← hd'.1, heq]
      rw [List.map_cons, List.map_cons, heq, ih hd.2 hd'.2 (Option.some.inj hparents)]

/-- The distance of a name among the scopes leads to the frame of the nearest scope that has it. -/
theorem Chained.ancestor? (hd : d.Chained h) {k : Nat} (hk : hopsTo? x d.scopes = some k) :
    ∃ layer, d.nearest? x = some layer ∧ d[k]? = some layer ∧ (layer.scope.lookup x).isSome ∧
      h.ancestor? d.frame k = some layer.frame := by
  induction d generalizing k with
  | nil => cases hk
  | cons layer outer ih =>
    rw [scopes_cons, hopsTo?] at hk
    cases hlookup : (layer.scope.lookup x).isSome with
    | true =>
      rw [hlookup] at hk
      obtain rfl : 0 = k := by simpa using hk
      exact ⟨layer, by simp [nearest?, hlookup], rfl, hlookup, rfl⟩
    | false =>
      rw [hlookup] at hk
      obtain ⟨j, hj, rfl⟩ := Option.map_eq_some_iff.mp hk
      obtain ⟨found, hnearest, hget, hfound, hancestor⟩ := ih hd.2 hj
      refine ⟨found, ?_, hget, hfound, ?_⟩
      · rw [nearest?, List.find?_cons_of_neg (by simp [hlookup])]
        exact hnearest
      · rw [frame, Heap.ancestor?, hd.1]
        exact hancestor

/-! ### Bound names -/

/-- Every name of a scope is bound in its frame. -/
structure Enclosed (h : Heap) (d : Display) : Prop where
  chained : d.Chained h
  binds : ∀ layer ∈ d, ∀ x, (layer.scope.lookup x).isSome → layer.Binds h x

/-- Every name of an outer scope is bound in its frame; in the innermost frame exactly the names are bound
whose declarations are done. -/
structure Standing (h : Heap) (d : Display) : Prop where
  chained : d.Chained h
  outer : ∀ layer ∈ d.tail, ∀ x, (layer.scope.lookup x).isSome → layer.Binds h x
  done : ∀ layer ∈ d.head?, ∀ x, layer.scope.lookup x = some .defined → layer.Binds h x
  bound : ∀ layer ∈ d.head?, ∀ x, (h.ownValue? layer.frame x).isSome →
    layer.scope.lookup x = some .defined

/-- The innermost scope is not in the middle of a declaration. -/
def Steady (d : Display) : Prop :=
  ∀ layer ∈ d.head?, ∀ x, layer.scope.lookup x ≠ some .declared

theorem binds_grows {f : FrameId} {names : List String} (hgrows : Heap.Grows f names h h')
    (hbinds : layer.Binds h x) : layer.Binds h' x := by
  obtain ⟨v, hv, hfitting⟩ := hbinds
  have hlt : layer.frame.index < h.frames.size := Heap.lt_of_ownValue? (by rw [hv]; rfl)
  by_cases hx : Plain x
  · obtain ⟨v', hv'⟩ := Option.isSome_iff_exists.mp
      ((hgrows.bound layer.frame x hlt).mpr (.inl (by rw [hv]; rfl)))
    exact ⟨v', hv', fitting_of_plain hx⟩
  · exact ⟨v, by rw [hgrows.special layer.frame x hlt hx, hv], hfitting⟩

theorem Enclosed.grows {f : FrameId} {names : List String} (hd : d.Enclosed h)
    (hgrows : Heap.Grows f names h h') : d.Enclosed h' :=
  ⟨hd.chained.grows hgrows, fun layer hlayer x hx => binds_grows hgrows (hd.binds layer hlayer x hx)⟩

theorem Standing.nil (h : Heap) : Standing h [] :=
  ⟨trivial, by simp, by simp, by simp⟩

theorem Standing.grows {f : FrameId} (hd : d.Standing h) (hgrows : Heap.Grows f [] h h') :
    d.Standing h' := by
  refine ⟨hd.chained.grows hgrows,
    fun layer hlayer x hx => binds_grows hgrows (hd.outer layer hlayer x hx),
    fun layer hlayer x hx => binds_grows hgrows (hd.done layer hlayer x hx),
    fun layer hlayer x hx => hd.bound layer hlayer x ?_⟩
  have hlt : layer.frame.index < h.frames.size := by
    cases d with
    | nil => cases hlayer
    | cons head outer =>
      obtain rfl : head = layer := by simpa using hlayer
      exact Heap.lt_of_parent? hd.chained.1
  simpa using (hgrows.bound layer.frame x hlt).mp hx

theorem Standing.enclosed (hd : d.Standing h) (hsteady : d.Steady) : d.Enclosed h := by
  refine ⟨hd.chained, fun layer hlayer x hx => ?_⟩
  cases d with
  | nil => cases hlayer
  | cons head outer =>
    rcases List.mem_cons.mp hlayer with rfl | hlayer
    · refine hd.done layer rfl x ?_
      obtain ⟨status, hstatus⟩ := Option.isSome_iff_exists.mp hx
      cases status with
      | declared => exact absurd hstatus (hsteady layer rfl x)
      | defined => exact hstatus
    · exact hd.outer layer hlayer x hx

/-- In the middle of a declaration the name is not bound yet. -/
theorem Standing.enter (hd : d.Standing h) (hfresh : Scope.Fresh name d.scopes) :
    (d.enter name .declared).Standing h := by
  cases d with
  | nil => exact .nil h
  | cons head outer =>
    have hfresh : head.scope.lookup name = none := by simpa [Scope.Fresh] using hfresh
    refine ⟨hd.chained, hd.outer, fun layer hlayer x hx => ?_, fun layer hlayer x hx => ?_⟩
    · obtain rfl : { head with scope := (name, .declared) :: head.scope } = layer := by
        simpa [Display.enter] using hlayer
      refine hd.done head rfl x ?_
      by_cases hname : x = name
      · subst hname
        simp at hx
      · simpa [List.lookup_cons, beq_false_of_ne hname] using hx
    · obtain rfl : { head with scope := (name, .declared) :: head.scope } = layer := by
        simpa [Display.enter] using hlayer
      have hdone := hd.bound head rfl x hx
      have hname : x ≠ name := by
        rintro rfl
        rw [hfresh] at hdone
        cases hdone
      simpa [List.lookup_cons, beq_false_of_ne hname] using hdone

theorem steady_declare (hsteady : d.Steady) (name : String) : (d.declare name).Steady := by
  cases d with
  | nil => exact hsteady
  | cons head outer =>
    intro layer hlayer x
    obtain rfl : { head with scope := (name, .defined) :: (name, .declared) :: head.scope } = layer := by
      simpa [declare, enter] using hlayer
    by_cases hname : x = name
    · subst hname
      simp
    · simpa [List.lookup_cons, beq_false_of_ne hname] using hsteady head rfl x

/-- When its declaration is done the name is bound. -/
theorem Standing.declare (hd : d.Standing h) (hname : Plain name)
    (hgrows : Heap.Grows d.frame [name] h h') : (d.declare name).Standing h' := by
  cases d with
  | nil => exact .nil h'
  | cons head outer =>
    have hlt : head.frame.index < h.frames.size := Heap.lt_of_parent? hd.chained.1
    have hbound : ∀ x, (h'.ownValue? head.frame x).isSome ↔
        (h.ownValue? head.frame x).isSome ∨ x = name := fun x => by
      simpa [frame] using hgrows.bound head.frame x hlt
    refine ⟨(hd.chained.grows hgrows : Chained h' (head :: outer)),
      fun layer hlayer x hx => binds_grows hgrows (hd.outer layer hlayer x hx),
      fun layer hlayer x hx => ?_, fun layer hlayer x hx => ?_⟩
    · obtain rfl : { head with scope := (name, .defined) :: (name, .declared) :: head.scope } =
          layer := by simpa [Display.declare, Display.enter] using hlayer
      by_cases heq : x = name
      · subst heq
        obtain ⟨v, hv⟩ := Option.isSome_iff_exists.mp ((hbound x).mpr (.inr rfl))
        exact ⟨v, hv, fitting_of_plain hname⟩
      · have hx' : head.scope.lookup x = some .defined := by
          simpa [List.lookup_cons, beq_false_of_ne heq] using hx
        exact binds_grows hgrows (hd.done head rfl x hx')
    · obtain rfl : { head with scope := (name, .defined) :: (name, .declared) :: head.scope } =
          layer := by simpa [Display.declare, Display.enter] using hlayer
      by_cases heq : x = name
      · subst heq
        simp
      · have hx' := ((hbound x).mp hx).resolve_right heq
        simpa [List.lookup_cons, beq_false_of_ne heq] using hd.bound head rfl x hx'

/-! ### New scopes -/

/-- A new frame inside the frame of a display, for a scope whose names it binds. -/
theorem Enclosed.push (hd : d.Enclosed h) {bindings : Bindings Value} {scope : Scope}
    (hscope : ∀ x, scope.lookup x = some .defined ↔ (bindings.lookup x).isSome)
    (hfitting : ∀ x v, bindings.lookup x = some v → Fitting x v) :
    Standing (h.newFrame (some d.frame) bindings).2
      (⟨(h.newFrame (some d.frame) bindings).1, scope⟩ :: d) := by
  have hgrows : Heap.Grows d.frame [] h (h.newFrame (some d.frame) bindings).2 :=
    Heap.Grows.of_newFrame _ _
  have hnew := Heap.frame?_newFrame_self (h := h) (some d.frame) bindings
  have hd' := hd.grows hgrows
  have hown : ∀ x, (h.newFrame (some d.frame) bindings).2.ownValue?
      (h.newFrame (some d.frame) bindings).1 x = bindings.lookup x := fun x => by
    rw [Heap.ownValue?, hnew]
    rfl
  refine ⟨⟨by rw [Heap.parent?, hnew]; rfl, hd'.chained⟩, hd'.binds, fun layer hlayer x hx => ?_,
    fun layer hlayer x hx => ?_⟩
  · obtain rfl : (⟨(h.newFrame (some d.frame) bindings).1, scope⟩ : Layer) = layer := by
      simpa using hlayer
    obtain ⟨v, hv⟩ := Option.isSome_iff_exists.mp ((hscope x).mp hx)
    exact ⟨v, by rw [hown, hv], hfitting x v hv⟩
  · obtain rfl : (⟨(h.newFrame (some d.frame) bindings).1, scope⟩ : Layer) = layer := by
      simpa using hlayer
    rw [hown] at hx
    exact (hscope x).mpr hx

theorem parameterScope_lookup (parameters : List Ident) (x : String) :
    (parameterScope parameters).lookup x =
      if x ∈ parameters.map Ident.name then some .defined else none := by
  have hfold : ∀ scope : Scope,
      (parameters.foldl (fun scope p => (p.name, .defined) :: (p.name, .declared) :: scope) scope).lookup
        x = if x ∈ parameters.map Ident.name then some .defined else scope.lookup x := by
    induction parameters with
    | nil => simp
    | cons p rest ih =>
      intro scope
      rw [List.foldl_cons, ih]
      by_cases hx : x = p.name
      · simp [hx]
      · simp [hx, List.lookup_cons, beq_false_of_ne hx]
  exact hfold []

/-- Arguments are bound to all parameters. -/
theorem argumentBindings_lookup {parameters : List Ident} {arguments : List Value}
    (hlength : arguments.length = parameters.length) (x : String) :
    ((Exec.argumentBindings parameters arguments).lookup x).isSome ↔
      x ∈ parameters.map Ident.name := by
  have hfold : ∀ bindings : Bindings Value,
      (((parameters.zip arguments).foldl (fun bindings b => bindings.put b.1.name b.2)
        bindings).lookup x).isSome ↔ x ∈ parameters.map Ident.name ∨ (bindings.lookup x).isSome := by
    induction parameters generalizing arguments with
    | nil => simp
    | cons p rest ih =>
      cases arguments with
      | nil => cases hlength
      | cons v vs =>
        intro bindings
        rw [List.zip_cons_cons, List.foldl_cons, ih (Nat.succ.inj hlength), Bindings.lookup_put]
        by_cases hx : x = p.name <;> simp [hx]
  exact (hfold []).trans (by simp)

/-- The scope of a function's body, whose frame binds the parameters. -/
theorem Enclosed.push_parameters (hd : d.Enclosed h) {parameters : List Ident}
    {arguments : List Value} (hlength : arguments.length = parameters.length)
    (hplain : ∀ p ∈ parameters, Plain p.name) :
    Standing (h.newFrame (some d.frame) (Exec.argumentBindings parameters arguments)).2
      (⟨(h.newFrame (some d.frame) (Exec.argumentBindings parameters arguments)).1,
        parameterScope parameters⟩ :: d) := by
  refine hd.push (fun x => ?_) fun x v hx => ?_
  · rw [parameterScope_lookup, argumentBindings_lookup hlength]
    split <;> simp_all
  · have hmem := (argumentBindings_lookup hlength x).mp (by rw [hx]; rfl)
    obtain ⟨p, hp, rfl⟩ := List.mem_map.mp hmem
    exact fitting_of_plain (hplain p hp)

/-- The scope of a block, whose frame binds nothing yet. -/
theorem Enclosed.push_block (hd : d.Enclosed h) :
    Standing (h.newFrame (some d.frame) []).2 (⟨(h.newFrame (some d.frame) []).1, []⟩ :: d) :=
  hd.push (by simp) (by simp)

/-- The scope of a method's receiver, or of the superclass of a class. -/
theorem Enclosed.push_special (hd : d.Enclosed h) {x : String} {v : Value} (hv : Fitting x v) :
    Enclosed (h.newFrame (some d.frame) [(x, v)]).2
      (⟨(h.newFrame (some d.frame) [(x, v)]).1, [(x, .defined)]⟩ :: d) := by
  have hlookup : ∀ y, ([(x, v)] : Bindings Value).lookup y = if y = x then some v else none := by
    intro y
    by_cases h : y = x
    · simp [h]
    · simp [List.lookup_cons, beq_false_of_ne h, h]
  refine (hd.push (fun y => ?_) fun y w hw => ?_).enclosed ?_
  · rw [hlookup]
    by_cases h : y = x
    · simp [h]
    · simp [List.lookup_cons, beq_false_of_ne h, h]
  · rw [hlookup] at hw
    by_cases h : y = x
    · subst h
      obtain rfl : v = w := by simpa using hw
      exact hv
    · simp [h] at hw
  · intro layer hlayer y
    obtain rfl : (⟨(h.newFrame (some d.frame) [(x, v)]).1, [(x, .defined)]⟩ : Layer) = layer := by
      simpa using hlayer
    by_cases h : y = x
    · simp [h]
    · simp [List.lookup_cons, beq_false_of_ne h]

theorem steady_push {frame : FrameId} {scope : Scope} (hscope : ∀ x, scope.lookup x ≠ some .declared)
    (d : Display) : Steady (⟨frame, scope⟩ :: d) := by
  intro layer hlayer x
  obtain rfl : (⟨frame, scope⟩ : Layer) = layer := by simpa using hlayer
  exact hscope x

end Display

end LoxLang
