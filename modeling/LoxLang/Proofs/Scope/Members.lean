import LoxLang.Proofs.Heap.Methods
import LoxLang.Proofs.Scope.SurveyedTasks
import Mathlib.Data.List.Induction

/-!
Members of objects. A property of an object is a field of it or else the method that the nearest class
declares, going up from the class of the object; a method of `super` is looked for from the class on that the
superclass clause around the mention had yielded. Classes were made by declarations in the programs of the
session, which say what methods they have.
-/

namespace LoxLang

open Resolver (hopsTo?)
open Lexical (receiverScope superclassScope parameterScope)
open Scope (enter declare Receiver Superclass)

/-! ### Methods of declarations -/

/-- The method of a name in the declaration of a class; of several the last one counts. -/
def ClassDecl.method? (d : ClassDecl) (name : String) : Option FunctionDecl :=
  d.methods.reverse.find? fun m => m.name.name == name

theorem Exec.methodBindings_lookup (frame : FrameId) (methods : List FunctionDecl) (name : String) :
    (methodBindings frame methods).lookup name =
      (methods.reverse.find? fun m => m.name.name == name).map fun m =>
        ⟨m, frame, decide (name = initializerName)⟩ := by
  induction methods using List.reverseRecOn with
  | nil => rfl
  | append_singleton rest m ih =>
    unfold methodBindings at ih ⊢
    rw [List.foldl_concat, Bindings.lookup_put, List.reverse_concat, List.find?_cons]
    by_cases hname : name = m.name.name
    · simp [hname]
    · rw [if_neg hname, ih, beq_false_of_ne (Ne.symm hname)]

theorem ClassRecord.Declared.lookup {c : ClassRecord} {d : ClassDecl} (h : c.Declared d) :
    ∃ frame, ∀ name, c.methods.lookup name =
      (d.method? name).map fun m => ⟨m, frame, decide (name = initializerName)⟩ := by
  obtain ⟨frame, hmethods⟩ := h.methods
  exact ⟨frame, fun name => by rw [hmethods, Exec.methodBindings_lookup]; rfl⟩

/-- The nearest class, going up from a class, whose declaration has a method of the name. -/
inductive Nearest (h : Heap) (text : ClassId → ClassDecl) (name : String) : ClassId → ClassId → Prop where
  | own {id} (hclass : (h.class? id).isSome) (hmethod : ((text id).method? name).isSome) :
    Nearest h text name id id
  | inherited {id c superclass owner} (hclass : h.class? id = some c)
    (hmethod : (text id).method? name = none) (hsuperclass : c.superclass = some superclass)
    (hnearest : Nearest h text name superclass owner) : Nearest h text name id owner

section

variable {h : Heap} {text : ClassId → ClassDecl} {name : String} {id owner : ClassId}

/-- The method that the heap has for a class is the one of the nearest class. -/
theorem Nearest.method? (htext : ∀ id c, h.class? id = some c → c.Declared (text id))
    (hnearest : Nearest h text name id owner) :
    ∃ c d m, h.class? owner = some c ∧ (text owner).method? name = some d ∧
      c.methods.lookup name = some m ∧ m.declaration = d ∧
        m.isInitializer = decide (name = initializerName) ∧ h.method? id name = some m := by
  induction hnearest with
  | @own id hclass hmethod =>
    obtain ⟨c, hc⟩ := Option.isSome_iff_exists.mp hclass
    obtain ⟨d, hd⟩ := Option.isSome_iff_exists.mp hmethod
    obtain ⟨frame, hlookup⟩ := (htext id c hc).lookup
    have hm : c.methods.lookup name = some ⟨d, frame, decide (name = initializerName)⟩ := by
      rw [hlookup, hd]
      rfl
    refine ⟨c, d, _, hc, hd, hm, rfl, rfl, ?_⟩
    rw [Heap.method?_eq, hc, Option.bind_some, hm]
  | @inherited id c superclass owner hclass hmethod hsuperclass _ ih =>
    obtain ⟨frame, hlookup⟩ := (htext id c hclass).lookup
    have hnone : c.methods.lookup name = none := by
      rw [hlookup, hmethod]
      rfl
    obtain ⟨c', d, m, hc', hd, hm, hdeclaration, hinitializer, hfound⟩ := ih
    refine ⟨c', d, m, hc', hd, hm, hdeclaration, hinitializer, ?_⟩
    rw [Heap.method?_eq, hclass, Option.bind_some, hnone, hsuperclass]
    exact hfound

/-- The class that offers a method is the nearest one whose declaration has it. -/
theorem Nearest.of_offers (htext : ∀ id c, h.class? id = some c → c.Declared (text id)) {m : Closure}
    (hoffers : h.Offers name id owner m) : Nearest h text name id owner := by
  induction hoffers with
  | own hclass hmethod =>
    obtain ⟨frame, hlookup⟩ := (htext _ _ hclass).lookup
    rw [hlookup] at hmethod
    obtain ⟨d, hd, -⟩ := Option.map_eq_some_iff.mp hmethod
    exact .own (by rw [hclass]; rfl) (by rw [hd]; rfl)
  | above hclass hmethod hsuperclass _ ih =>
    obtain ⟨frame, hlookup⟩ := (htext _ _ hclass).lookup
    rw [hlookup] at hmethod
    exact .inherited hclass (Option.map_eq_none_iff.mp hmethod) hsuperclass ih

/-- A class that has a method under a name has it from a nearest class. -/
theorem exists_nearest (htext : ∀ id c, h.class? id = some c → c.Declared (text id)) {m : Closure}
    (hm : h.method? id name = some m) : ∃ owner, Nearest h text name id owner := by
  obtain ⟨owner, hoffers⟩ := Heap.exists_offers hm
  exact ⟨owner, .of_offers htext hoffers⟩

end

/-- What reading a method gives: the one of the nearest class that declares it, going up from a class, bound
to a receiver; or a fault if there is no such class. -/
def Dispatches (text : ClassId → ClassDecl) (m : Machine) (cls : ClassId) (name : Ident)
    (receiver : ObjectId) (x : Exec Value) : Prop :=
  (∀ owner, Nearest m.heap text name.name cls owner → ∃ c d method, m.heap.class? owner = some c ∧
    (text owner).method? name.name = some d ∧ c.methods.lookup name.name = some method ∧
      method.declaration = d ∧ method.isInitializer = decide (name.name = initializerName) ∧
        x.run m = .ok (.function (m.heap.bind method receiver).1)
          { m with heap := (m.heap.bind method receiver).2 }) ∧
  ((¬∃ owner, Nearest m.heap text name.name cls owner) →
    x.run m = .error (.failed ⟨name.position, .runtime (.undefinedProperty name.name), none⟩) m)

theorem Exec.bindMethod_dispatches {text : ClassId → ClassDecl} {m : Machine}
    (htext : ∀ id c, m.heap.class? id = some c → c.Declared (text id)) (cls : ClassId) (name : Ident)
    (receiver : ObjectId) : Dispatches text m cls name receiver (bindMethod cls name receiver) := by
  constructor
  · intro owner hnearest
    obtain ⟨c, d, method, hc, hd, hm, hdeclaration, hinitializer, hfound⟩ := hnearest.method? htext
    refine ⟨c, d, method, hc, hd, hm, hdeclaration, hinitializer, ?_⟩
    unfold bindMethod
    simp only [EStateM.run_bind, EStateM.run_get, hfound]
    rfl
  · intro hnone
    have hfound : m.heap.method? cls name.name = none := by
      cases hm : m.heap.method? cls name.name with
      | none => rfl
      | some method => exact absurd (exists_nearest htext hm) hnone
    unfold bindMethod
    simp only [EStateM.run_bind, EStateM.run_get, hfound]
    rfl

theorem Dispatches.congr {text : ClassId → ClassDecl} {m : Machine} {cls : ClassId} {name : Ident}
    {receiver : ObjectId} {x y : Exec Value} (hxy : x.run m = y.run m)
    (hy : Dispatches text m cls name receiver y) : Dispatches text m cls name receiver x := by
  unfold Dispatches at hy ⊢
  rw [hxy]
  exact hy

theorem Exec.property_run_field {m : Machine} {id : ObjectId} {object : ObjectRecord} {name : Ident}
    {v : Value} (hobject : m.heap.object? id = some object)
    (hv : object.fields.lookup name.name = some v) :
    (property (.object id) name).run m = .ok v m := by
  unfold property
  simp only [EStateM.run_bind, EStateM.run_get, hobject, hv]
  rfl

theorem Exec.property_run_method {m : Machine} {id : ObjectId} {object : ObjectRecord} {name : Ident}
    (hobject : m.heap.object? id = some object) (hnone : object.fields.lookup name.name = none) :
    (property (.object id) name).run m = (bindMethod object.cls name id).run m := by
  unfold property
  simp only [EStateM.run_bind, EStateM.run_get, hobject, hnone]

/-! ### The scopes of classes in a nest -/

/-- The scopes that are made for receivers and superclasses are those that bind `this` and `super`. -/
def Opening.Makes (o : Opening) (scope : Scope) : Prop :=
  ((scope.lookup thisName).isSome ↔ o = .receiver) ∧
    ((scope.lookup superName).isSome ↔ ∃ clause, o = .superclass clause)

/-- A mention of `super` stands in a method of a class with a superclass. -/
def Spot.Formed : Spot → Prop
  | mention r nest scopes => List.Forall₂ Opening.Makes nest scopes ∧
    (r.ident.name = superName → ∃ k, Receiver scopes k ∧ Superclass scopes (k + 1))
  | classDecl _ => True

namespace Opening

variable {nest : List Opening} {scopes : List Scope}

theorem makes_receiver : receiver.Makes receiverScope := by
  simp [Makes, receiverScope, thisName, superName]

theorem makes_superclass (clause : Reference) : (superclass clause).Makes superclassScope := by
  simp [Makes, superclassScope, thisName, superName]

theorem makes_block (body : List Stmt) : (block body).Makes [] := by
  simp [Makes]

theorem makes_function {d : FunctionDecl} (hplain : ∀ p ∈ d.parameters, Plain p.name) :
    (function d).Makes (parameterScope d.parameters) := by
  have hthis : thisName ∉ d.parameters.map Ident.name := fun h => by
    obtain ⟨p, hp, hname⟩ := List.mem_map.mp h
    exact (hplain p hp).1 hname
  have hsuper : superName ∉ d.parameters.map Ident.name := fun h => by
    obtain ⟨p, hp, hname⟩ := List.mem_map.mp h
    exact (hplain p hp).2 hname
  simp [Makes, Display.parameterScope_lookup, hthis, hsuper]

/-- The names that a program declares are plain. -/
theorem makes_enter (h : List.Forall₂ Makes nest scopes) {name : String} (hname : Plain name)
    (status : Scope.Status) : List.Forall₂ Makes nest (enter name status scopes) := by
  cases h with
  | nil => exact .nil
  | cons hhead hrest =>
    refine .cons ?_ hrest
    simpa [Makes, List.lookup_cons, beq_false_of_ne hname.1.symm, beq_false_of_ne hname.2.symm] using hhead

theorem makes_declare (h : List.Forall₂ Makes nest scopes) {name : String} (hname : Plain name) :
    List.Forall₂ Makes nest (declare name scopes) :=
  makes_enter (makes_enter h hname .declared) hname .defined

theorem makes_after (h : List.Forall₂ Makes nest scopes) {n : Notes} {s : Stmt}
    (hs : s.Addressed n scopes) : List.Forall₂ Makes nest (Scope.after s scopes) := by
  have hplain := Lexical.plain_of_addressed hs
  unfold Scope.after
  cases hname : s.declared? with
  | none => exact h
  | some name => exact makes_declare h (hplain name hname)

/-- The nearest receiver and the superclass just outside it, at the distances of `this` and `super`. -/
theorem split_nest (h : List.Forall₂ Makes nest scopes) {k : Nat} (hthis : hopsTo? thisName scopes = some k)
    (hsuper : hopsTo? superName scopes = some (k + 1)) :
    ∃ inner clause outer, nest = inner ++ receiver :: superclass clause :: outer ∧ inner.length = k ∧
      ∀ o ∈ inner, o ≠ receiver ∧ ∀ clause, o ≠ superclass clause := by
  induction h generalizing k with
  | nil => cases hthis
  | @cons o scope nest scopes hmakes hrest ih =>
    rw [hopsTo?] at hthis hsuper
    have hnotSuper : ¬(scope.lookup superName).isSome := fun h => by simp [h] at hsuper
    rw [if_neg hnotSuper] at hsuper
    obtain ⟨j, hj, hjk⟩ := Option.map_eq_some_iff.mp hsuper
    obtain rfl : j = k := by omega
    cases hbinds : (scope.lookup thisName).isSome with
    | true =>
      obtain rfl : 0 = j := by simpa [hbinds] using hthis
      obtain rfl := hmakes.1.mp hbinds
      cases hrest with
      | nil => cases hj
      | @cons o scope nest _ hmakes _ =>
        rw [hopsTo?] at hj
        have hsuper : (scope.lookup superName).isSome := by
          by_contra hnot
          rw [if_neg hnot] at hj
          obtain ⟨_, _, hzero⟩ := Option.map_eq_some_iff.mp hj
          omega
        obtain ⟨clause, rfl⟩ := hmakes.2.mp hsuper
        exact ⟨[], clause, nest, rfl, rfl, by simp⟩
    | false =>
      rw [hbinds] at hthis
      obtain ⟨i, hi, rfl⟩ := Option.map_eq_some_iff.mp hthis
      obtain ⟨inner, clause, outer, rfl, rfl, hinner⟩ := ih hi hj
      refine ⟨o :: inner, clause, outer, rfl, rfl, List.forall_mem_cons.mpr ⟨⟨?_, ?_⟩, hinner⟩⟩
      · rintro rfl
        rw [hmakes.1.mpr rfl] at hbinds
        cases hbinds
      · rintro clause' rfl
        exact hnotSuper (hmakes.2.mpr ⟨clause', rfl⟩)

end Opening

section

open Opening

variable {n : Notes}

theorem formed_plain {r : Reference} {nest : List Opening} {scopes : List Scope}
    (h : List.Forall₂ Makes nest scopes) (hr : Plain r.ident.name) : (Spot.mention r nest scopes).Formed :=
  ⟨h, fun hsuper => absurd hsuper hr.2⟩

mutual

theorem Expr.spots_formed : ∀ (e : Expr) {nest : List Opening} {scopes : List Scope},
    List.Forall₂ Makes nest scopes → e.Addressed n scopes → ∀ p ∈ e.spots nest scopes, p.Formed
  | .constant _, _, _, _, _ => by simp [Expr.spots]
  | .grouping inner, _, _, h, he => Expr.spots_formed inner h he
  | .unary _ _ operand, _, _, h, he => Expr.spots_formed operand h he
  | .binary left _ _ right, _, _, h, he =>
    List.forall_mem_append.mpr ⟨Expr.spots_formed left h he.1, Expr.spots_formed right h he.2⟩
  | .logical left _ right, _, _, h, he =>
    List.forall_mem_append.mpr ⟨Expr.spots_formed left h he.1, Expr.spots_formed right h he.2⟩
  | .read target, _, _, h, he => List.forall_mem_singleton.mpr (formed_plain h he.1)
  | .assign target value, _, _, h, he =>
    List.forall_mem_append.mpr ⟨Expr.spots_formed value h he.2.1,
      List.forall_mem_singleton.mpr (formed_plain h he.1)⟩
  | .call callee _ arguments, _, _, h, he =>
    List.forall_mem_append.mpr ⟨Expr.spots_formed callee h he.1, Expr.allSpots_formed arguments h he.2⟩
  | .get object _, _, _, h, he => Expr.spots_formed object h he
  | .set object _ value, _, _, h, he =>
    List.forall_mem_append.mpr ⟨Expr.spots_formed object h he.2, Expr.spots_formed value h he.1⟩
  | .this id position, _, _, h, _ =>
    List.forall_mem_singleton.mpr ⟨h, fun hsuper => absurd hsuper (show thisName ≠ superName by decide)⟩
  | .super id position _, _, _, h, he => List.forall_mem_singleton.mpr ⟨h, fun _ => he.2⟩

theorem Expr.allSpots_formed : ∀ (es : List Expr) {nest : List Opening} {scopes : List Scope},
    List.Forall₂ Makes nest scopes → Expr.AllAddressed n scopes es →
      ∀ p ∈ Expr.allSpots nest scopes es, p.Formed
  | [], _, _, _, _ => by simp [Expr.allSpots]
  | e :: rest, _, _, h, hes =>
    List.forall_mem_append.mpr ⟨Expr.spots_formed e h hes.1, Expr.allSpots_formed rest h hes.2⟩

end

mutual

theorem Stmt.spots_formed : ∀ (s : Stmt) {nest : List Opening} {scopes : List Scope},
    List.Forall₂ Makes nest scopes → s.Addressed n scopes → ∀ p ∈ s.spots nest scopes, p.Formed
  | .expression e, _, _, h, hs => Expr.spots_formed e h hs
  | .print e, _, _, h, hs => Expr.spots_formed e h hs
  | .var _ none, _, _, _, _ => by simp [Stmt.spots]
  | .var _ (some e), _, _, h, hs => Expr.spots_formed e (makes_enter h hs.1 _) hs.2.2
  | .block body, _, _, h, hs => Stmt.allSpots_formed body (.cons (makes_block body) h) hs
  | .ifThen condition thenBranch, _, _, h, hs =>
    List.forall_mem_append.mpr ⟨Expr.spots_formed condition h hs.1, Stmt.spots_formed thenBranch h hs.2.2⟩
  | .ifElse condition thenBranch elseBranch, _, _, h, hs =>
    List.forall_mem_append.mpr ⟨Expr.spots_formed condition h hs.1,
      List.forall_mem_append.mpr ⟨Stmt.spots_formed thenBranch h hs.2.1.2,
        Stmt.spots_formed elseBranch h hs.2.2.2⟩⟩
  | .loop condition body none, _, _, h, hs =>
    List.forall_mem_append.mpr ⟨Expr.spots_formed condition h hs.1, Stmt.spots_formed body h hs.2.2⟩
  | .loop condition body (some increment), _, _, h, hs =>
    List.forall_mem_append.mpr ⟨Expr.spots_formed condition h hs.1,
      List.forall_mem_append.mpr ⟨Stmt.spots_formed body h hs.2.1.2,
        Expr.spots_formed increment h hs.2.2⟩⟩
  | .breakLoop _, _, _, _, _ => by simp [Stmt.spots]
  | .continueLoop _, _, _, _, _ => by simp [Stmt.spots]
  | .function d, _, _, h, hs => FunctionDecl.spots_formed d (makes_declare h hs.1) hs.2.2.2
  | .returnValue _ none, _, _, _, _ => by simp [Stmt.spots]
  | .returnValue _ (some e), _, _, h, hs => Expr.spots_formed e h hs
  | .classDecl _ none methods, _, _, h, hs =>
    List.forall_mem_cons.mpr ⟨trivial,
      FunctionDecl.allSpots_formed methods (makes_declare h hs.1) hs.2.2⟩
  | .classDecl _ (some clause) methods, _, _, h, hs =>
    List.forall_mem_cons.mpr ⟨trivial,
      List.forall_mem_cons.mpr ⟨formed_plain (makes_enter h hs.1 _) hs.2.2.1.1,
        FunctionDecl.allSpots_formed methods (.cons (makes_superclass clause) (makes_declare h hs.1))
          hs.2.2.2⟩⟩

theorem Stmt.allSpots_formed : ∀ (body : List Stmt) {nest : List Opening} {scopes : List Scope},
    List.Forall₂ Makes nest scopes → Stmt.AllAddressed n scopes body →
      ∀ p ∈ Stmt.allSpots nest scopes body, p.Formed
  | [], _, _, _, _ => by simp [Stmt.allSpots]
  | s :: rest, _, _, h, hbody =>
    List.forall_mem_append.mpr ⟨Stmt.spots_formed s h hbody.1,
      Stmt.allSpots_formed rest (makes_after h hbody.1) hbody.2⟩

theorem FunctionDecl.spots_formed : ∀ (d : FunctionDecl) {nest : List Opening} {scopes : List Scope},
    List.Forall₂ Makes nest scopes → d.Addressed n scopes → ∀ p ∈ d.spots nest scopes, p.Formed
  | ⟨_, _, _, body⟩, _, _, h, hd => Stmt.allSpots_formed body (.cons (makes_function hd.1) h) hd.2

theorem FunctionDecl.allSpots_formed : ∀ (methods : List FunctionDecl) {nest : List Opening}
    {scopes : List Scope}, List.Forall₂ Makes nest scopes → FunctionDecl.AllAddressed n scopes methods →
      ∀ p ∈ FunctionDecl.allSpots nest scopes methods, p.Formed
  | [], _, _, _, _ => by simp [FunctionDecl.allSpots]
  | m :: rest, _, _, h, hmethods =>
    List.forall_mem_append.mpr ⟨FunctionDecl.spots_formed m (.cons makes_receiver h) hmethods.1.2,
      FunctionDecl.allSpots_formed rest h hmethods.2⟩

end

/-- The spots of an accepted program are formed. -/
theorem Session.Knows.formed {s : Session} {events : List Session.Event} {p : Spot}
    (h : s.Knows events p) : p.Formed := by
  obtain ⟨before, e, after, x, program, -, -, haccepts, hp⟩ := h
  obtain ⟨-, hprogram⟩ := parse_yields (tokens_words x.source) (s.follow before).2.nextId
  obtain ⟨n, -, -, -, haddressed⟩ := resolve_addresses hprogram.1 haccepts.scopes
  rw [haccepts.statements] at haddressed
  exact Stmt.allSpots_formed program .nil haddressed p hp

end

/-! ### Calls -/

section

variable {fuel : Nat} {f : Closure} {cls : ClassId} {vs : List Value} {paren : Position} {m m' : Machine}
  {v : Value}

theorem call_function_run (h : (call fuel (.function f) vs paren).run m = .ok v m') :
    ∃ n, fuel = n + 1 ∧ vs.length = f.declaration.parameters.length ∧
      (invoke n f vs).run m = .ok v m' := by
  cases fuel with
  | zero =>
    unfold call at h
    cases h
  | succ n =>
    unfold call at h
    rw [EStateM.run_bind, EStateM.run_get] at h
    dsimp only [Exec.arity?] at h
    split at h
    case isTrue => cases h
    case isFalse hlength => exact ⟨n, rfl, Decidable.not_not.mp hlength, h⟩

theorem call_cls_run (h : (call fuel (.cls cls) vs paren).run m = .ok v m') :
    ∃ n, fuel = n + 1 ∧ Exec.arity? m.heap (.cls cls) = some vs.length ∧
      (instantiate n cls vs).run m = .ok v m' := by
  cases fuel with
  | zero =>
    unfold call at h
    cases h
  | succ n =>
    unfold call at h
    rw [EStateM.run_bind, EStateM.run_get] at h
    dsimp only [Exec.arity?] at h ⊢
    split at h
    case isTrue => cases h
    case isFalse hlength => exact ⟨n, rfl, congrArg some (Decidable.not_not.mp hlength).symm, h⟩

/-- An instance is made and, if its class has an initializer, is handed to it. -/
theorem instantiate_run (h : (instantiate fuel cls vs).run m = .ok v m') :
    ∃ n, fuel = n + 1 ∧ v = .object (m.heap.newObject cls).1 ∧
      (m' = { m with heap := (m.heap.newObject cls).2 } ∨
        ∃ method u, (m.heap.newObject cls).2.method? cls initializerName = some method ∧
          (invoke n ((m.heap.newObject cls).2.bind method (m.heap.newObject cls).1).1 vs).run
            { m with heap := ((m.heap.newObject cls).2.bind method (m.heap.newObject cls).1).2 } =
              .ok u m') := by
  cases fuel with
  | zero =>
    unfold instantiate at h
    cases h
  | succ n =>
    unfold instantiate at h
    rw [EStateM.run_bind, Task.updateHeap_run] at h
    dsimp only at h
    rw [EStateM.run_bind, EStateM.run_get] at h
    dsimp only at h
    cases hmethod : (m.heap.newObject cls).2.method? cls initializerName with
    | none =>
      rw [hmethod] at h
      cases h
      exact ⟨n, rfl, rfl, .inl rfl⟩
    | some method =>
      rw [hmethod] at h
      dsimp only at h
      rw [EStateM.run_bind, Task.updateHeap_run] at h
      dsimp only at h
      rw [EStateM.run_bind] at h
      cases hrun : (invoke n ((m.heap.newObject cls).2.bind method (m.heap.newObject cls).1).1 vs).run
          { m with heap := ((m.heap.newObject cls).2.bind method (m.heap.newObject cls).1).2 } with
      | error e m₁ =>
        rw [hrun] at h
        cases h
      | ok u m₁ =>
        rw [hrun] at h
        cases h
        exact ⟨n, rfl, rfl, .inr ⟨method, u, rfl, hrun⟩⟩

/-- An initializer yields what the scope around it binds to `this` in the end. -/
theorem invoke_initializer_run (h : (invoke fuel f vs).run m = .ok v m') (hf : f.isInitializer) :
    v = (m'.heap.ownValue? f.frame thisName).getD .nil := by
  cases fuel with
  | zero =>
    unfold invoke at h
    cases h
  | succ n =>
    unfold invoke at h
    rw [EStateM.run_bind] at h
    dsimp only [Exec.newFrame] at h
    rw [Task.updateHeap_run] at h
    dsimp only at h
    rw [EStateM.run_bind] at h
    split at h
    case h_2 => cases h
    case h_1 c m₁ hbody =>
      rw [if_pos hf, EStateM.run_bind, EStateM.run_get] at h
      cases h
      rfl

/-- The scope around an initializer binds `this` to an object. -/
theorem SpottedFunction.receiver {a : Atlas} {known : Spot → Prop} {openings : List Opening} {w : World}
    (h : SpottedFunction known openings w.captured f) (hsound : w.Sound a)
    (hsurveyed : w.Surveyed known openings) (hf : f.isInitializer) :
    ∃ object, w.machine.heap.ownValue? f.frame thisName = some (.object object) := by
  obtain ⟨d, nest, hd, hopened, hreceiver, -⟩ := h
  have hframe := (hsound.charts _ _ _ hd).frame
  have hreceiver := hreceiver hf
  refine hsurveyed.receivers f.frame ?_
  rw [← hframe]
  cases hopened with
  | nil => cases hreceiver
  | cons hhead _ => exact hhead.trans hreceiver

/-- Whatever the body of a function does, objects keep their classes, and an initializer yields its
receiver. -/
theorem invoke_keeps {a : Atlas} {known : Spot → Prop} (h : Task.Begins a known (.invoke fuel f vs) m)
    (hrun : (invoke fuel f vs).run m = .ok v m') :
    (∀ id c, m.heap.classOf? id = some c → m'.heap.classOf? id = some c) ∧
      (f.isInitializer → ∃ object, m.heap.ownValue? f.frame thisName = some (.object object) ∧
        v = .object object) := by
  obtain ⟨w, openings, rfl, hsound, hsurveyed, ⟨hf, hfspots⟩, hvs, hlength⟩ := h
  obtain ⟨w', openings', rfl, -, -, hfollows, -⟩ :=
    (Lexical.invoke_surveys fuel f vs hf (fun v hv => (hvs v hv).1) hlength hfspots
      fun v hv => (hvs v hv).2).reaches
        (Lexical.invoke_safe fuel f vs hf (fun v hv => (hvs v hv).1) hlength)
        ((Lexical.keeper_faithful.within fuel).invoke f vs hlength) hsound hsurveyed hrun
  refine ⟨hfollows.before.objects, fun hinitializer => ?_⟩
  obtain ⟨object, hthis⟩ := hfspots.receiver hsound hsurveyed hinitializer
  refine ⟨object, hthis, ?_⟩
  have hlt : f.frame.index < w.machine.heap.frames.size := Heap.lt_of_ownValue? (by rw [hthis]; rfl)
  rw [invoke_initializer_run hrun hinitializer,
    hfollows.grows.heap.special f.frame thisName hlt fun hplain => hplain.1 rfl, hthis]
  rfl

/-- A call of a class that succeeds yields a new instance of it. -/
theorem call_cls_yields {a : Atlas} {known : Spot → Prop}
    (h : Task.Begins a known (.call fuel (.cls cls) vs paren) m)
    (hrun : (call fuel (.cls cls) vs paren).run m = .ok v m') :
    v = .object ⟨m.heap.objects.size⟩ ∧ m'.heap.classOf? ⟨m.heap.objects.size⟩ = some cls := by
  obtain ⟨n, rfl, harity, hinstantiate⟩ := call_cls_run hrun
  obtain ⟨k, rfl, hv, hend⟩ := instantiate_run hinstantiate
  have hnew : (m.heap.newObject cls).2.classOf? ⟨m.heap.objects.size⟩ = some cls := by
    simp [Heap.classOf?, Heap.object?, Heap.newObject]
  refine ⟨hv, ?_⟩
  rcases hend with rfl | ⟨method, u, hmethod, hinvoke⟩
  · exact hnew
  · have hbegins := (h.leads (.cls harity)).leads (.initializer hmethod)
    exact (invoke_keeps hbegins hinvoke).1 _ _ hnew

/-- A call of an initializer that succeeds yields its receiver. -/
theorem call_initializer_yields {a : Atlas} {known : Spot → Prop}
    (h : Task.Begins a known (.call fuel (.function f) vs paren) m) (hf : f.isInitializer)
    (hrun : (call fuel (.function f) vs paren).run m = .ok v m') :
    ∃ object, m.heap.ownValue? f.frame thisName = some (.object object) ∧ v = .object object := by
  obtain ⟨n, rfl, hlength, hinvoke⟩ := call_function_run hrun
  exact (invoke_keeps (h.leads (.function hlength)) hinvoke).2 hf

end

/-! ### Sessions -/

/-- Each class of the heap was made by its declaration, which stands in a program that the session accepts. -/
def Session.Writes (s : Session) (events : List Session.Event) (h : Heap)
    (text : ClassId → ClassDecl) : Prop :=
  ∀ id c, h.class? id = some c → s.Knows events (.classDecl (text id)) ∧ c.Declared (text id)

/-- Every class of a classified heap has a declaration. -/
theorem Heap.Classified.writes {s : Session} {events : List Session.Event} {h : Heap}
    (hclasses : h.Classified (s.Knows events)) : ∃ text, s.Writes events h text := by
  have hdeclared : ∀ id, ∃ d, ∀ c, h.class? id = some c →
      s.Knows events (.classDecl d) ∧ c.Declared d := by
    intro id
    cases hc : h.class? id with
    | none => exact ⟨⟨default, none, []⟩, fun c h => by cases h⟩
    | some c =>
      obtain ⟨d, hknown, hd⟩ := hclasses id c hc
      refine ⟨d, fun c' h => ?_⟩
      obtain rfl := Option.some.inj h
      exact ⟨hknown, hd⟩
  choose text htext using hdeclared
  exact ⟨text, htext⟩

/-- How a mention of `super` is looked up that stands in the nest of scopes `inner`, inside a method of a class
with a superclass clause. The clause had been evaluated, and yielded a class, when the scope of the class was
made; the scope of the method binds the receiver. From the class on the method is looked for, and it is bound
to the receiver. -/
def Visit.FindsSuper (v : Visit) (s : Session) (events : List Session.Event) (earlier : List Visit)
    (id : NodeId) (position : Position) : Prop :=
  ∃ inner clause outer, (∀ o ∈ inner, o ≠ .receiver ∧ ∀ clause', o ≠ .superclass clause') ∧
    s.Knows events (.mention (.super id position) (inner ++ .receiver :: .superclass clause :: outer)
      v.display.scopes) ∧
    ∃ methodLayer classLayer, v.display[inner.length]? = some methodLayer ∧
      v.display[inner.length + 1]? = some classLayer ∧
        ∃ u ∈ earlier, u.Yields clause v.machine.heap classLayer.frame ∧
          ∃ cls receiver, Exec.lookUp? u.machine clause = some (.cls cls) ∧
            v.machine.heap.ownValue? methodLayer.frame thisName = some (.object receiver) ∧
              ∃ text, s.Writes events v.machine.heap text ∧ ∀ method,
                Dispatches text v.machine cls method receiver (Exec.superMethod id position method)

theorem Visit.Stands.findsSuper {s : Session} {events : List Session.Event} {earlier : List Visit}
    {nest : List Opening} {v : Visit} {id : NodeId} {position : Position}
    (h : v.Stands (s.Knows events) earlier nest) (hsuper : v.mention = .super id position)
    (hexact : v.SuperExactly id) : v.FindsSuper s events earlier id position := by
  obtain ⟨hspot, hplaced, hresolved, hfitted, hclauses, hclasses⟩ := h
  rw [hsuper] at hspot hresolved
  obtain ⟨hmakes, hmethod⟩ := hspot.formed
  obtain ⟨k, ⟨hthis, -⟩, hclass, -⟩ := hmethod rfl
  obtain ⟨inner, clause, outer, rfl, rfl, hinner⟩ := Opening.split_nest hmakes hthis hclass
  have hchained := hfitted.standing.chained
  obtain ⟨methodLayer, -, hmethodLayer, -, hmethodFrame⟩ := hchained.ancestor? hthis
  obtain ⟨classLayer, -, hclassLayer, -, hclassFrame⟩ := hchained.ancestor? hclass
  rw [hplaced] at hmethodFrame hclassFrame
  obtain ⟨k, -, -, cls, receiver, hhops, ⟨-, -, -, hcls⟩, -, -, -, hreceiver⟩ := hexact
  obtain rfl : inner.length = k := by
    have h := hhops.symm.trans (hresolved.trans hclass)
    simpa using h.symm
  obtain ⟨u, hu, hyields⟩ : Yielded earlier clause v.machine.heap classLayer.frame := by
    obtain ⟨hlt, rfl⟩ := List.getElem?_eq_some_iff.mp hclassLayer
    exact hclauses.get hlt (hclauses.length_eq ▸ hlt) clause (by simp)
  have hsuperOwn : v.machine.heap.ownValue? classLayer.frame superName = some (.cls cls) := by
    rw [Heap.getAt?, hclassFrame] at hcls
    exact hcls
  have hthisOwn : v.machine.heap.ownValue? methodLayer.frame thisName = some (.object receiver) := by
    rw [Heap.getAt?, hmethodFrame] at hreceiver
    exact hreceiver
  have hclause : Exec.lookUp? u.machine clause = some (.cls cls) := by
    obtain ⟨-, -, -, c, hc, hown⟩ := hyields
    rw [hc, ← hown, hsuperOwn]
  obtain ⟨text, htext⟩ := hclasses.writes
  refine ⟨inner, clause, outer, hinner, hspot, methodLayer, classLayer, hmethodLayer, hclassLayer, u, hu,
    hyields, cls, receiver, hclause, hthisOwn, text, htext, fun method => ?_⟩
  exact Dispatches.congr (Exec.superMethod_run hhops hcls hreceiver position method)
    (Exec.bindMethod_dispatches (fun id c hc => (htext id c hc).2) cls method receiver)

/-- Members of objects in a session. In every state that its programs come to, classes have been made by
declarations of programs, and reading a property of an object gives its field of that name if it has one, or
else the method of the nearest class that declares it, going up from the class of the object, bound to the
object, or else a fault. A method of `super` is looked for from the class on that the superclass clause around
it had yielded when its class was declared, and is bound to the receiver of the method around it. A call of a
class that succeeds yields a new instance of it, and a call of an initializer that succeeds yields its
receiver, whatever the body of the initializer does. -/
theorem members_dispatch (files : Files) (includeDir : Option String) (input : List InputLine)
    (clock : Clock) (regex : Pattern.Engine) (events : List Session.Event) :
    let s := Session.new files includeDir input clock regex
    let recorded := (RecordedSession.new files includeDir input clock regex).follow events
    s.follow events = (recorded.1, recorded.2.session) ∧
      (∀ t m, s.Does events t m → ∃ text, s.Writes events m.heap text ∧
        ∀ id object name, m.heap.object? id = some object →
          (∀ v, object.fields.lookup name.name = some v →
            (Exec.property (.object id) name).run m = .ok v m) ∧
          (object.fields.lookup name.name = none →
            Dispatches text m object.cls name id (Exec.property (.object id) name))) ∧
      (∀ later v earlier id position, recorded.2.world.visits = later ++ v :: earlier →
        v.mention = .super id position → v.FindsSuper s events earlier id position) ∧
      (∀ fuel cls arguments paren m, s.Does events (.call fuel (.cls cls) arguments paren) m →
        ∀ v m', (call fuel (.cls cls) arguments paren).run m = .ok v m' →
          v = .object ⟨m.heap.objects.size⟩ ∧ m'.heap.classOf? ⟨m.heap.objects.size⟩ = some cls) ∧
      ∀ fuel f arguments paren m, s.Does events (.call fuel (.function f) arguments paren) m →
        f.isInitializer → ∀ v m', (call fuel (.function f) arguments paren).run m = .ok v m' →
          ∃ receiver, m.heap.ownValue? f.frame thisName = some (.object receiver) ∧
            v = .object receiver := by
  intro s recorded
  refine ⟨RecordedSession.follow_session events (.new files includeDir input clock regex), ?_, ?_, ?_, ?_⟩
  · intro t m ht
    obtain ⟨a, w, openings, rfl, -, hsurveyed, -⟩ := ht.begins
    obtain ⟨text, htext⟩ := hsurveyed.classes.writes
    refine ⟨text, htext, fun id object name hobject => ⟨fun v hv => ?_, fun hnone => ?_⟩⟩
    · exact Exec.property_run_field hobject hv
    · exact Dispatches.congr (Exec.property_run_method hobject hnone)
        (Exec.bindMethod_dispatches (fun id c hc => (htext id c hc).2) object.cls name id)
  · intro later v earlier id position hvisits hsuper
    obtain ⟨-, openings, hsurveyed⟩ := RecordedSession.follow_surveyed files includeDir input clock regex events
      (List.append_nil events).symm
    have hchronicle : Chronicle (s.Knows events) recorded.2.world.visits := hsurveyed.visits
    rw [hvisits] at hchronicle
    obtain ⟨nest, hstands⟩ := hchronicle.stands
    have hexact := RecordedSession.visits_exact files includeDir input clock regex events v
      (hvisits ▸ List.mem_append_right later List.mem_cons_self)
    unfold Visit.Exact at hexact
    rw [hsuper] at hexact
    exact hstands.findsSuper hsuper hexact
  · intro fuel cls arguments paren m ht v m' hrun
    obtain ⟨a, hbegins⟩ := ht.begins
    exact call_cls_yields hbegins hrun
  · intro fuel f arguments paren m ht hf v m' hrun
    obtain ⟨a, hbegins⟩ := ht.begins
    exact call_initializer_yields hbegins hf hrun

end LoxLang
