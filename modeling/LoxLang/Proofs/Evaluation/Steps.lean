import LoxLang.Proofs.Evaluation.Operators
import LoxLang.Proofs.Evaluation.Outcome
import LoxLang.Proofs.Heap.Alike
import LoxLang.Proofs.Value.ArrayMethod

/-!
Steps of evaluation on machines that are the same but for the code in their heaps. The same step, taken for
code that is alike, ends in the same way on both: with values that are alike, with one fault at places that
correspond, or for want of steps; and it leaves machines that are alike again. Nothing that a program does
depends on how its nodes are numbered or on where it is written, except for the place of the fault that ends
it.
-/

namespace LoxLang

/-- What stays as it is on two machines: the text that the second one had written before all that the first
one writes, and the distances that each of them knows. -/
structure Backdrop where
  earlier : Array Written
  hops : HopTable
  hops' : HopTable

/-- Machines that are the same but for the code in their heaps and for their backdrop. The nodes of the code
have the same distances. -/
structure Machine.Alike (S : Skew) (K : Backdrop) (m n : Machine) : Prop where
  heap : m.heap.Alike S n.heap
  current : m.current = n.current
  hops : m.hops = K.hops
  hops' : n.hops = K.hops'
  distances : ∀ {i j : NodeId}, S.node i j → m.hops.find? i = n.hops.find? j
  output : n.output = K.earlier ++ m.output
  input : m.input = n.input
  files : m.files = n.files
  clock : m.clock = n.clock
  regex : m.regex = n.regex

/-- The same fault at runtime at places that correspond, or no fault but a want of steps. -/
inductive Halt.Alike (S : Skew) : Halt → Halt → Prop where
  | failed (fault : RuntimeFault) {p q : Position} :
    S.place p q → Alike S (.failed ⟨p, .runtime fault, none⟩) (.failed ⟨q, .runtime fault, none⟩)
  | exhausted : Alike S .exhausted .exhausted

/-- Two computations that do the same on machines that are alike. -/
def Exec.Alike {α β : Type} (S : Skew) (K : Backdrop) (R : α → β → Prop) (x : Exec α) (y : Exec β) :
    Prop :=
  ∀ m n, m.Alike S K n → Agree x y m n
    (fun a m' b n' => R a b ∧ m'.Alike S K n')
    (fun e m' e' n' => e.Alike S e' ∧ m'.Alike S K n')

namespace Exec.Alike

variable {S : Skew} {K : Backdrop} {α β α' β' : Type} {R : α → β → Prop} {R' : α' → β' → Prop}

theorem pure {a : α} {b : β} (hab : R a b) : Alike S K R (Pure.pure a) (Pure.pure b) :=
  fun _ _ hm => Agree.pure ⟨hab, hm⟩

theorem bind {x : Exec α} {y : Exec β} {f : α → Exec α'} {g : β → Exec β'}
    (hxy : Alike S K R x y) (hfg : ∀ a b, R a b → Alike S K R' (f a) (g b)) :
    Alike S K R' (x >>= f) (y >>= g) := by
  intro m n hm
  refine (hxy m n hm).bind ?_
  rintro a m' b n' ⟨hab, hm'⟩
  exact hfg a b hab m' n' hm'

theorem fail {p q : Position} (hpq : S.place p q) (fault : RuntimeFault) :
    Alike S K R (Exec.fail p fault) (Exec.fail q fault) :=
  fun _ _ hm => Agree.throw ⟨.failed fault hpq, hm⟩

theorem exhausted : Alike S K R Exec.exhausted Exec.exhausted :=
  fun _ _ hm => Agree.throw ⟨.exhausted, hm⟩

theorem get_bind {f : Machine → Exec α'} {g : Machine → Exec β'}
    (hfg : ∀ (m n : Machine), m.Alike S K n → Alike S K R' (f m) (g n)) :
    Alike S K R' (get >>= f) (get >>= g) :=
  fun _ _ hm => hfg _ _ hm _ _ hm

theorem modify {f g : Machine → Machine}
    (hfg : ∀ m n, m.Alike S K n → (f m).Alike S K (g n)) :
    Alike S K (fun _ _ => True) (modify f : Exec Unit) (modify g : Exec Unit) :=
  fun m n hm => ⟨trivial, hfg m n hm⟩

theorem updateHeap {f : Heap → α × Heap} {g : Heap → β × Heap}
    (hfg : ∀ h h', h.Alike S h' → R (f h).1 (g h').1 ∧ (f h).2.Alike S (g h').2) :
    Alike S K R (Exec.updateHeap f) (Exec.updateHeap g) :=
  fun _ _ hm => ⟨(hfg _ _ hm.heap).1, { hm with heap := (hfg _ _ hm.heap).2 }⟩

theorem inFrame (frame : FrameId) {x : Exec α} {y : Exec β} (hxy : Alike S K R x y) :
    Alike S K R (Exec.inFrame frame x) (Exec.inFrame frame y) := by
  intro m n hm
  have h := hxy { m with current := frame } { n with current := frame } { hm with current := rfl }
  refine .inFrame (h.imp ?_ ?_)
  · exact fun a m' b n' h => ⟨h.1, { h.2 with current := hm.current }⟩
  · exact fun e m' e' n' h => ⟨h.1, { h.2 with current := hm.current }⟩

end Exec.Alike

namespace Exec

variable {S : Skew} {K : Backdrop} {v w : Value}

/-! ### Operators -/

theorem SameResult.alike {p q : Position} {x y : Exec Value} (h : SameResult p q x y) (hpq : S.place p q) :
    Alike S K (Value.Alike S) x y := by
  cases h with
  | value v hv hx hy =>
    rw [hx, hy]
    exact .pure (.data hv)
  | fault fault hx hy =>
    rw [hx, hy]
    exact .fail hpq fault

theorem unary_alike (op : UnaryOp) {p q : Position} (hpq : S.place p q) (hvw : v.Alike S w) :
    Alike S K (Value.Alike S) (unary op p v) (unary op q w) :=
  (unary_related op hvw).alike hpq

theorem binary_alike (hS : S.Faithful) (op : BinaryOp) {p q : Position} (hpq : S.place p q)
    {v' w' : Value} (hv : v.Alike S v') (hw : w.Alike S w') :
    Alike S K (Value.Alike S) (binary op p v w) (binary op q v' w') := by
  cases op with
  | equal =>
    refine .get_bind fun m n hm => .pure ?_
    rw [hm.heap.equalAgrees hS hv hw]
    exact .data trivial
  | notEqual =>
    refine .get_bind fun m n hm => .pure ?_
    rw [hm.heap.equalAgrees hS hv hw]
    exact .data trivial
  | order c => exact (order_related c hv hw).alike hpq
  | arithmetic op => exact (arithmetic_related op hv hw).alike hpq

/-! ### Variables and properties -/

theorem lookUp?_alike {m n : Machine} (hm : m.Alike S K n) {r r' : Reference}
    (hr : r.Alike S r') : Option.Rel (Value.Alike S) (lookUp? m r) (lookUp? n r') := by
  unfold lookUp?
  rw [hm.distances hr.id, hm.current, hr.ident.name]
  cases n.hops.find? r'.id with
  | none => exact hm.heap.get? _ _
  | some hops => exact hm.heap.getAt? _ _ _

theorem reassign?_alike {m n : Machine} (hm : m.Alike S K n) {r r' : Reference}
    (hr : r.Alike S r') (hvw : v.Alike S w) :
    Option.Rel (Heap.Alike S) (reassign? m r v) (reassign? n r' w) := by
  unfold reassign?
  rw [hm.distances hr.id, hm.current, hr.ident.name]
  cases n.hops.find? r'.id with
  | none => exact hm.heap.assign? _ _ hvw
  | some hops => exact hm.heap.assignAt? _ _ _ hvw

theorem read_alike {r r' : Reference} (hr : r.Alike S r') :
    Alike S K (Value.Alike S) (read r) (read r') := by
  refine .get_bind fun m n hm => ?_
  have hfound := lookUp?_alike hm hr
  generalize lookUp? m r = found at hfound
  generalize lookUp? n r' = found' at hfound
  cases hfound with
  | none => exact hr.ident.name ▸ .fail hr.ident.position _
  | some hvw => exact .pure hvw

theorem assign_alike {r r' : Reference} (hr : r.Alike S r') (hvw : v.Alike S w) :
    Alike S K (fun _ _ => True) (assign r v) (assign r' w) := by
  intro m n hm
  refine Agree.get_bind ?_
  have hchanged := reassign?_alike hm hr hvw
  generalize reassign? m r v = changed at hchanged
  generalize reassign? n r' w = changed' at hchanged
  cases hchanged with
  | none =>
    rw [hr.ident.name]
    exact Alike.fail hr.ident.position _ m n hm
  | some hheap => exact ⟨trivial, { hm with heap := hheap }⟩

theorem bindMethod_alike (cls : ClassId) {x y : Ident} (hxy : x.Alike S y) (receiver : ObjectId) :
    Alike S K (Value.Alike S) (bindMethod cls x receiver) (bindMethod cls y receiver) := by
  refine .get_bind fun m n hm => ?_
  have hmethod := hm.heap.contents.method? cls x.name
  rw [hxy.name] at hmethod ⊢
  generalize m.heap.method? cls y.name = f at hmethod
  generalize n.heap.method? cls y.name = g at hmethod
  cases hmethod with
  | none => exact .fail hxy.position _
  | some hfg =>
    refine Alike.bind (.updateHeap fun h h' hh => hh.bind hfg receiver) fun f g hfg => ?_
    exact .pure (.function hfg)

theorem property_alike (hvw : v.Alike S w) {x y : Ident} (hxy : x.Alike S y) :
    Alike S K (Value.Alike S) (property v x) (property w y) := by
  cases hvw with
  | function => exact .fail hxy.position _
  | arrayMethod => exact .fail hxy.position _
  | data =>
    cases v with
    | object id =>
      refine .get_bind fun m n hm => ?_
      have hobject := hm.heap.contents.object? id
      generalize m.heap.object? id = o at hobject
      generalize n.heap.object? id = p at hobject
      cases hobject with
      | none => exact hxy.name ▸ .fail hxy.position _
      | @some o p hop =>
        have hfield := hop.fields.lookup x.name
        rw [hxy.name] at hfield
        simp only [hxy.name, hop.cls]
        generalize o.fields.lookup y.name = a at hfield
        generalize p.fields.lookup y.name = b at hfield
        cases hfield with
        | some hab => exact .pure hab
        | none => exact bindMethod_alike p.cls hxy id
    | array id =>
      unfold property
      rw [hxy.name]
      cases ArrayMethod.ofName? y.name with
      | none => exact .fail hxy.position _
      | some m => exact .pure (.arrayMethod id m hxy.position)
    | _ => exact .fail hxy.position _

theorem receiver?_alike {m n : Machine} (hm : m.Alike S K n) (hops : Nat) :
    Option.Rel (Value.Alike S) (receiver? m hops) (receiver? n hops) := by
  cases hops with
  | zero => exact .none
  | succ inner =>
    unfold receiver?
    rw [hm.current]
    exact hm.heap.getAt? _ _ _

theorem superMethod_alike {i j : NodeId} (hij : S.node i j) {p q : Position} (hpq : S.place p q)
    {x y : Ident} (hxy : x.Alike S y) :
    Alike S K (Value.Alike S) (superMethod i p x) (superMethod j q y) := by
  refine .get_bind fun m n hm => ?_
  rw [hm.distances hij, hm.current]
  cases n.hops.find? j with
  | none => exact .fail hpq _
  | some hops =>
    have hcls := hm.heap.getAt? n.current hops superName
    have hreceiver := receiver?_alike hm hops
    simp only
    generalize m.heap.getAt? n.current hops superName = a at hcls
    generalize n.heap.getAt? n.current hops superName = b at hcls
    generalize receiver? m hops = c at hreceiver
    generalize receiver? n hops = d at hreceiver
    cases hcls with
    | none => exact .fail hpq _
    | some hab =>
      cases hab with
      | function => exact .fail hpq _
      | arrayMethod => exact .fail hpq _
      | data =>
        rename_i a _
        cases a with
        | cls id =>
          cases hreceiver with
          | none => exact .fail hpq _
          | some hcd =>
            cases hcd with
            | function => exact .fail hpq _
            | arrayMethod => exact .fail hpq _
            | data =>
              rename_i c _
              cases c with
              | object receiver => exact bindMethod_alike id hxy receiver
              | _ => exact .fail hpq _
        | _ => exact .fail hpq _

/-! ### Scopes -/

theorem newFrame_alike (parent : FrameId) {bs cs : Bindings Value}
    (hbs : Bindings.Alike (Value.Alike S) bs cs) :
    Alike S K (· = ·) (newFrame parent bs) (newFrame parent cs) :=
  .updateHeap fun _ _ hh => hh.newFrame (some parent) hbs

theorem define_alike (name : String) (hvw : v.Alike S w) :
    Alike S K (fun _ _ => True) (define name v) (define name w) :=
  .modify fun m _ hm => { hm with heap := hm.current ▸ hm.heap.define m.current name hvw }

/-! ### Calls -/

theorem arity?_alike {h h' : Heap} (hh : h.Alike S h') (hvw : v.Alike S w) :
    arity? h v = arity? h' w := by
  cases hvw with
  | function hfg => exact congrArg some hfg.declaration.parameters.length_eq
  | arrayMethod => rfl
  | data =>
    cases v with
    | cls id =>
      have hmethod := hh.contents.method? id initializerName
      unfold arity?
      dsimp only
      generalize h.method? id initializerName = f at hmethod
      generalize h'.method? id initializerName = g at hmethod
      cases hmethod with
      | none => rfl
      | some hfg =>
        simp only [Option.map_some, Option.getD_some, hfg.declaration.parameters.length_eq]
    | _ => rfl

theorem callNative_alike (hS : S.Faithful) (f : Native) {vs ws : List Value}
    (hargs : List.Forall₂ (Value.Alike S) vs ws) {p q : Position} (hpq : S.place p q) :
    Alike S K (Value.Alike S) (callNative f vs p) (callNative f ws q) := by
  intro m n hm
  have hbeside : Native.Beside (Closure.Alike S) S.place K.earlier m n :=
    ⟨hm.heap.arrays, hm.output, hm.input, hm.files, hm.clock, hm.regex⟩
  have h := Native.run_related hbeside (hm.heap.equalAgrees hS) f hargs
  have hleaves : ∀ {m' n'}, Native.Leaves (Closure.Alike S) S.place K.earlier m n m' n' →
      m'.Alike S K n' := by
    intro m' n' h
    have hheap := hm.heap.withArrays h.beside.arrays
    rw [h.left, h.right]
    exact { hm with heap := hheap, output := h.beside.output, input := h.beside.input, clock := h.beside.clock }
  refine .callNative (h.imp ?_ ?_)
  · exact fun v m' w n' h => ⟨h.1, hleaves h.2⟩
  · exact fun e m' e' n' h => ⟨h.1 ▸ .failed _ hpq, hleaves h.2⟩

theorem callArrayMethod_alike (id : ArrayId) (method : ArrayMethod) {p q : Position}
    (hpq : S.place p q) {vs ws : List Value} (hargs : List.Forall₂ (Value.Alike S) vs ws) :
    Alike S K (Value.Alike S) (callArrayMethod id method p vs)
      (callArrayMethod id method q ws) := by
  intro m n hm
  have h := ArrayMethod.run_related hm.heap.arrays id method hargs
  unfold Agree callArrayMethod
  dsimp only [EStateM.run]
  generalize method.run m.heap id vs = x at h
  generalize method.run n.heap id ws = y at h
  cases h with
  | error fault => exact ⟨.failed _ hpq, hm⟩
  | @ok r r' h =>
    obtain ⟨v, k⟩ := r
    obtain ⟨w, k'⟩ := r'
    obtain ⟨hvw, harrays, hk, hk'⟩ := h
    refine ⟨hvw, { hm with heap := ?_ }⟩
    have hheap := hm.heap.withArrays harrays
    dsimp only at hk hk' ⊢
    rw [hk, hk']
    exact hheap

theorem argumentBindings_alike {ps qs : List Ident} (hps : List.Forall₂ (Ident.Alike S) ps qs)
    {vs ws : List Value} (hvs : List.Forall₂ (Value.Alike S) vs ws) :
    Bindings.Alike (Value.Alike S) (argumentBindings ps vs) (argumentBindings qs ws) := by
  have hfold : ∀ {bs cs : Bindings Value}, Bindings.Alike (Value.Alike S) bs cs →
      Bindings.Alike (Value.Alike S)
        ((ps.zip vs).foldl (fun bindings b => bindings.put b.1.name b.2) bs)
        ((qs.zip ws).foldl (fun bindings b => bindings.put b.1.name b.2) cs) := by
    induction hps generalizing vs ws with
    | nil => exact fun hbs => hbs
    | cons hpq _ ih =>
      intro bs cs hbs
      cases hvs with
      | nil => exact hbs
      | cons hvw hvs =>
        refine ih hvs ?_
        dsimp only
        rw [← hpq.name]
        exact hbs.put _ hvw
  exact hfold .nil

/-! ### Classes -/

theorem methodBindings_alike (frame : FrameId) {fs gs : List FunctionDecl}
    (hfs : List.Forall₂ (FunctionDecl.Alike S) fs gs) :
    Bindings.Alike (Closure.Alike S) (methodBindings frame fs) (methodBindings frame gs) := by
  have hfold : ∀ {bs cs : Bindings Closure}, Bindings.Alike (Closure.Alike S) bs cs →
      Bindings.Alike (Closure.Alike S)
        (fs.foldl (fun bindings m =>
          bindings.put m.name.name ⟨m, frame, decide (m.name.name = initializerName)⟩) bs)
        (gs.foldl (fun bindings m =>
          bindings.put m.name.name ⟨m, frame, decide (m.name.name = initializerName)⟩) cs) := by
    induction hfs with
    | nil => exact fun hbs => hbs
    | cons hfg _ ih =>
      intro bs cs hbs
      refine ih ?_
      dsimp only
      rw [← hfg.name.name]
      exact hbs.put _ ⟨hfg, rfl, rfl⟩
  exact hfold .nil

theorem declareClass_alike {x y : Ident} (hxy : x.Alike S y) (superclass : Option ClassId)
    {fs gs : List FunctionDecl} (hfs : List.Forall₂ (FunctionDecl.Alike S) fs gs) :
    Alike S K (fun _ _ => True) (declareClass x superclass fs)
      (declareClass y superclass gs) := by
  have hmake : ∀ frame : FrameId, Alike S K (fun _ _ => True)
      (do
        let cls ← Exec.updateHeap fun h => h.newClass ⟨x.name, superclass, methodBindings frame fs⟩
        define x.name (.cls cls))
      (do
        let cls ← Exec.updateHeap fun h => h.newClass ⟨y.name, superclass, methodBindings frame gs⟩
        define y.name (.cls cls)) := by
    intro frame
    rw [hxy.name]
    refine Alike.bind (R := (· = ·)) (.updateHeap fun _ _ hh =>
      hh.newClass ⟨rfl, rfl, methodBindings_alike frame hfs⟩) fun cls _ heq => ?_
    exact heq ▸ define_alike _ (.data trivial)
  unfold declareClass
  rw [hxy.name] at hmake ⊢
  have hnil : Value.Alike S .nil .nil := .data trivial
  refine (define_alike _ hnil).bind fun _ _ _ => ?_
  refine .get_bind fun m n hm => ?_
  rw [hm.current]
  cases superclass with
  | none => exact hmake n.current
  | some c =>
    have hbinding : Bindings.Alike (Value.Alike S) [(superName, .cls c)] [(superName, .cls c)] :=
      .cons ⟨rfl, .data trivial⟩ .nil
    refine (newFrame_alike n.current hbinding).bind fun frame _ heq => ?_
    exact heq ▸ hmake frame

theorem superclassOf_alike {r r' : Reference} (hr : r.Alike S r') :
    Alike S K (· = ·) (superclassOf r) (superclassOf r') := by
  refine (read_alike hr).bind fun v w hvw => ?_
  cases hvw with
  | function => exact .fail hr.ident.position _
  | arrayMethod => exact .fail hr.ident.position _
  | data =>
    cases v with
    | cls id => exact .pure rfl
    | _ => exact .fail hr.ident.position _

end Exec

end LoxLang
