import LoxLang.Proofs.Evaluation.Operators
import LoxLang.Proofs.Evaluation.Outcome
import LoxLang.Proofs.Renaming.Heap
import LoxLang.Proofs.Value.ArrayMethod

/-!
Steps of evaluation under a renaming. The same step, taken for code that is renamed, ends in the same way on
both sides: with values that differ by the renaming only, or with one fault in one line, or for want of
steps. New scopes may be made on the way; the marks of the old ones stay as they are.
-/

namespace LoxLang

/-- Faults that are the same but for the name of the variable in a message about it. -/
inductive RuntimeFault.Renamed (R : Renaming) : RuntimeFault → RuntimeFault → Prop where
  | same (fault : RuntimeFault) : Renamed R fault fault
  | undefined : Renamed R (.undefinedVariable R.old) (.undefinedVariable R.new)

/-- One fault at runtime in one line, or no fault but a want of steps. -/
inductive Halt.Renamed (R : Renaming) : Halt → Halt → Prop where
  | failed {p q : Position} {fault fault' : RuntimeFault} : p.SameLine q → fault.Renamed R fault' →
    Renamed R (.failed ⟨p, .runtime fault, none⟩) (.failed ⟨q, .runtime fault', none⟩)
  | exhausted : Renamed R .exhausted .exhausted

/-- Machines that are the same but for a renaming. -/
structure Machine.Renamed (R : Renaming) (w : Marking) (m n : Machine) : Prop where
  heap : m.heap.Renamed R w n.heap
  current : m.current = n.current
  hops : m.hops = n.hops
  distances : ∀ {i d}, R.distance i d → m.hops.find? i = d
  output : m.output = n.output
  input : m.input = n.input
  files : m.files = n.files
  clock : m.clock = n.clock
  regex : m.regex = n.regex

namespace Exec

/-- Some outcome, whose machines differ by the renaming in the current scope of before. -/
def Leaves (R : Renaming) (w : Marking) (current : FrameId) (good : Marking → Prop) (m n : Machine) : Prop :=
  ∃ w', w <+: w' ∧ m.Renamed R w' n ∧ m.current = current ∧ good w'

/-- From scopes with the marks `μ`, both computations end in the same way, with results that correspond. -/
def Renames {α β : Type} (R : Renaming) (w : Marking) (μ : Marks) (good : Marking → α → β → Prop) (x : Exec α)
    (y : Exec β) : Prop :=
  ∀ m n, m.Renamed R w n → w.marks? m.current = some μ → Agree x y m n
    (fun a m' b n' => Leaves R w m.current (good · a b) m' n')
    (fun e m' e' n' => e.Renamed R e' ∧ Leaves R w m.current (fun _ => True) m' n')

namespace Renames

variable {R : Renaming} {w : Marking} {μ : Marks} {α β α' β' : Type} {P : Marking → α → β → Prop}
  {Q : Marking → α' → β' → Prop}

theorem pure {a : α} {b : β} (hab : P w a b) : Renames R w μ P (Pure.pure a) (Pure.pure b) :=
  fun _ _ hm _ => Agree.pure ⟨w, List.prefix_rfl, hm, rfl, hab⟩

theorem bind {x : Exec α} {y : Exec β} {f : α → Exec α'} {g : β → Exec β'} (hxy : Renames R w μ P x y)
    (hfg : ∀ w', w <+: w' → ∀ a b, P w' a b → Renames R w' μ Q (f a) (g b)) :
    Renames R w μ Q (x >>= f) (y >>= g) := by
  intro m n hm hμ
  have hfirst : Agree x y m n (fun a m' b n' => Leaves R w m.current (P · a b) m' n')
      fun e m' e' n' => e.Renamed R e' ∧ Leaves R w m.current (fun _ => True) m' n' :=
    (hxy m n hm hμ).imp (fun _ _ _ _ h => h) fun _ _ _ _ h => h
  refine hfirst.bind ?_
  rintro a m' b n' ⟨w', hw, hm', hcurrent, hab⟩
  have hafter : ∀ {P : Marking → Prop} {m₂ n₂ : Machine}, Leaves R w' m'.current P m₂ n₂ →
      Leaves R w m.current P m₂ n₂ := by
    rintro P m₂ n₂ ⟨w₂, hw₂, hm₂, hcurrent₂, hP⟩
    exact ⟨w₂, hw.trans hw₂, hm₂, hcurrent₂.trans hcurrent, hP⟩
  refine (hfg w' hw a b hab m' n' hm' (hcurrent ▸ Marking.marks?_grow hw hμ)).imp ?_ ?_
  · exact fun _ _ _ _ h => hafter h
  · exact fun _ _ _ _ h => ⟨h.1, hafter h.2⟩

theorem fail {p q : Position} (hpq : p.SameLine q) {fault fault' : RuntimeFault}
    (hfault : fault.Renamed R fault') : Renames R w μ P (Exec.fail p fault) (Exec.fail q fault') :=
  fun _ _ hm _ => Agree.throw ⟨.failed hpq hfault, w, List.prefix_rfl, hm, rfl, trivial⟩

theorem exhausted : Renames R w μ P Exec.exhausted Exec.exhausted :=
  fun _ _ hm _ => Agree.throw ⟨.exhausted, w, List.prefix_rfl, hm, rfl, trivial⟩

theorem get_bind {f : Machine → Exec α'} {g : Machine → Exec β'}
    (hfg : ∀ m n : Machine, m.Renamed R w n → w.marks? m.current = some μ → Renames R w μ Q (f m) (g n)) :
    Renames R w μ Q (get >>= f) (get >>= g) :=
  fun m n hm hμ => hfg m n hm hμ m n hm hμ

theorem modify {f g : Machine → Machine}
    (hfg : ∀ m n : Machine, m.Renamed R w n → w.marks? m.current = some μ →
      (f m).Renamed R w (g n) ∧ (f m).current = m.current) :
    Renames R w μ (fun _ _ _ => True) (modify f : Exec Unit) (modify g : Exec Unit) :=
  fun m n hm hμ => ⟨w, List.prefix_rfl, (hfg m n hm hμ).1, (hfg m n hm hμ).2, trivial⟩

/-- A change of the heap, which may make new scopes. -/
theorem updateHeap {f : Heap → α × Heap} {g : Heap → β × Heap}
    (hfg : ∀ h h' : Heap, h.Renamed R w h' →
      ∃ w', w <+: w' ∧ P w' (f h).1 (g h').1 ∧ (f h).2.Renamed R w' (g h').2) :
    Renames R w μ P (Exec.updateHeap f) (Exec.updateHeap g) := by
  intro m n hm _
  obtain ⟨w', hw, hP, hheap⟩ := hfg _ _ hm.heap
  exact ⟨w', hw, { hm with heap := hheap }, rfl, hP⟩

/-- A computation in another scope. -/
theorem inFrame {frame : FrameId} {ν : Marks} (hν : w.marks? frame = some ν) {x : Exec α} {y : Exec β}
    (hxy : Renames R w ν P x y) :
    Renames R w μ P (Exec.inFrame frame x) (Exec.inFrame frame y) := by
  intro m n hm hμ
  have h := hxy { m with current := frame } { n with current := frame } { hm with current := rfl } hν
  have hback : ∀ {P : Marking → Prop} {m' n' : Machine}, Leaves R w frame P m' n' →
      Leaves R w m.current P { m' with current := m.current } { n' with current := n.current } := by
    rintro P m' n' ⟨w', hw, hm', _, hP⟩
    exact ⟨w', hw, { hm' with current := hm.current }, rfl, hP⟩
  refine .inFrame (h.imp ?_ ?_)
  · exact fun a m' b n' h => hback h
  · exact fun e m' e' n' h => ⟨h.1, hback h.2⟩

end Renames

variable {R : Renaming} {w : Marking} {μ : Marks} {v u : Value}

/-! ### Operators -/

theorem SameResult.renames {p q : Position} {x y : Exec Value} (h : SameResult p q x y) (hpq : p.SameLine q) :
    Renames R w μ (Value.Renamed R) x y := by
  cases h with
  | value v hv hx hy =>
    rw [hx, hy]
    exact .pure (.data hv)
  | fault fault hx hy =>
    rw [hx, hy]
    exact .fail hpq (.same fault)

theorem unary_renames (op : UnaryOp) {p q : Position} (hpq : p.SameLine q) (hvu : v.Renamed R w u) :
    Renames R w μ (Value.Renamed R) (unary op p v) (unary op q u) :=
  (unary_related op hvu).renames hpq

theorem binary_renames (op : BinaryOp) {p q : Position} (hpq : p.SameLine q) {v' u' : Value}
    (hv : v.Renamed R w v') (hu : u.Renamed R w u') :
    Renames R w μ (Value.Renamed R) (binary op p v u) (binary op q v' u') := by
  cases op with
  | equal =>
    refine .get_bind fun m n hm _ => .pure ?_
    rw [hm.heap.equalAgrees hv hu]
    exact .data trivial
  | notEqual =>
    refine .get_bind fun m n hm _ => .pure ?_
    rw [hm.heap.equalAgrees hv hu]
    exact .data trivial
  | order c => exact (order_related c hv hu).renames hpq
  | arithmetic op => exact (arithmetic_related op hv hu).renames hpq

/-! ### Variables and properties -/

section Variables

variable {m n : Machine} {r r' : Reference}

theorem lookUp?_renamed (hm : m.Renamed R w n) (hμ : w.marks? m.current = some μ) (hr : r.Renamed R μ r') :
    Option.Rel (Value.Renamed R w) (lookUp? m r) (lookUp? n r') := by
  obtain ⟨hops, hdistance, hident⟩ := hr.ident
  unfold lookUp?
  rw [← hm.hops, ← hr.id, hm.distances hdistance, ← hm.current, hident.name]
  cases hops with
  | none =>
    rw [show μ.reach none = false from rfl, Renaming.name_false]
    exact hm.heap.get?_globals _
  | some hops => exact hm.heap.getAt? hμ hident.free

theorem reassign?_renamed (hm : m.Renamed R w n) (hμ : w.marks? m.current = some μ) (hr : r.Renamed R μ r')
    (hvu : v.Renamed R w u) : Option.Rel (Heap.Renamed R w) (reassign? m r v) (reassign? n r' u) := by
  obtain ⟨hops, hdistance, hident⟩ := hr.ident
  unfold reassign?
  rw [← hm.hops, ← hr.id, hm.distances hdistance, ← hm.current, hident.name]
  cases hops with
  | none =>
    rw [show μ.reach none = false from rfl, Renaming.name_false]
    exact hm.heap.assign?_globals _ hvu
  | some hops => exact hm.heap.assignAt? hμ hident.free hvu

/-- A missing variable is told by the name that it is mentioned by. -/
theorem undefined_renamed (hr : r.Renamed R μ r') :
    RuntimeFault.Renamed R (.undefinedVariable r.ident.name) (.undefinedVariable r'.ident.name) := by
  obtain ⟨hops, _, hident⟩ := hr.ident
  rw [hident.name]
  unfold Renaming.name
  split
  case isTrue h =>
    rw [h.2]
    exact .undefined
  case isFalse => exact .same _

theorem line_renamed (hr : r.Renamed R μ r') : r.ident.position.SameLine r'.ident.position := by
  obtain ⟨_, _, hident⟩ := hr.ident
  exact hident.line

end Variables

theorem read_renames {r r' : Reference} (hr : r.Renamed R μ r') :
    Renames R w μ (Value.Renamed R) (read r) (read r') := by
  refine .get_bind fun m n hm hμ => ?_
  have hfound := lookUp?_renamed hm hμ hr
  generalize lookUp? m r = found at hfound
  generalize lookUp? n r' = found' at hfound
  cases hfound with
  | none => exact .fail (line_renamed hr) (undefined_renamed hr)
  | some hvu => exact .pure hvu

theorem assign_renames {r r' : Reference} (hr : r.Renamed R μ r') (hvu : v.Renamed R w u) :
    Renames R w μ (fun _ _ _ => True) (assign r v) (assign r' u) := by
  intro m n hm hμ
  refine Agree.get_bind ?_
  have hchanged := reassign?_renamed hm hμ hr hvu
  generalize reassign? m r v = changed at hchanged
  generalize reassign? n r' u = changed' at hchanged
  cases hchanged with
  | none => exact Renames.fail (line_renamed hr) (undefined_renamed hr) m n hm hμ
  | some hheap => exact ⟨w, List.prefix_rfl, { hm with heap := hheap }, rfl, trivial⟩

/-- The receiver is read by a name that is never renamed. -/
theorem this_renames {i : NodeId} {p q : Position} {d : Option Nat} (hi : R.distance i d)
    (hpq : p.SameLine q) : Renames R w μ (Value.Renamed R) (read (.this i p)) (read (.this i q)) := by
  refine read_renames ⟨rfl, d, hi, ?_, fun _ => R.new_plain.1.symm, hpq⟩
  exact (Renaming.name_of_ne R.old_plain.1.symm).symm

theorem bindMethod_renames (cls : ClassId) {x y : Ident} (hxy : x.Kept y) (receiver : ObjectId) :
    Renames R w μ (Value.Renamed R) (bindMethod cls x receiver) (bindMethod cls y receiver) := by
  refine .get_bind fun m n hm _ => ?_
  have hmethod := hm.heap.contents.method? cls x.name
  rw [hxy.name] at hmethod ⊢
  generalize m.heap.method? cls y.name = f at hmethod
  generalize n.heap.method? cls y.name = g at hmethod
  cases hmethod with
  | none => exact .fail hxy.line (.same _)
  | some hfg =>
    refine Renames.bind (P := (Closure.Renamed R · [])) (.updateHeap fun h h' hh => hh.bind hfg receiver)
      fun w' _ f g hfg => ?_
    exact .pure (.function hfg)

theorem property_renames (hvu : v.Renamed R w u) {x y : Ident} (hxy : x.Kept y) :
    Renames R w μ (Value.Renamed R) (property v x) (property u y) := by
  cases hvu with
  | function => exact .fail hxy.line (.same _)
  | arrayMethod => exact .fail hxy.line (.same _)
  | data =>
    cases v with
    | object id =>
      refine .get_bind fun m n hm _ => ?_
      have hobject := hm.heap.contents.object? id
      generalize m.heap.object? id = o at hobject
      generalize n.heap.object? id = p at hobject
      cases hobject with
      | none => exact hxy.name ▸ .fail hxy.line (.same _)
      | @some o p hop =>
        have hfield := hop.fields.lookup x.name
        rw [hxy.name] at hfield
        simp only [hxy.name, hop.cls]
        generalize o.fields.lookup y.name = a at hfield
        generalize p.fields.lookup y.name = b at hfield
        cases hfield with
        | some hab => exact .pure hab
        | none => exact bindMethod_renames p.cls hxy id
    | array id =>
      unfold property
      rw [hxy.name]
      cases ArrayMethod.ofName? y.name with
      | none => exact .fail hxy.line (.same _)
      | some m => exact .pure (.arrayMethod id m hxy.line)
    | _ => exact .fail hxy.line (.same _)

theorem receiver?_renamed {m n : Machine} (hm : m.Renamed R w n) (hops : Nat) :
    Option.Rel (Value.Renamed R w) (receiver? m hops) (receiver? n hops) := by
  cases hops with
  | zero => exact .none
  | succ inner =>
    unfold receiver?
    rw [hm.current]
    exact hm.heap.getAt?_fixed R.old_plain.1.symm R.new_plain.1.symm _ _

theorem superMethod_renames {i : NodeId} {p q : Position} {d : Option Nat} (hi : R.distance i d)
    (hpq : p.SameLine q) {x y : Ident} (hxy : x.Kept y) :
    Renames R w μ (Value.Renamed R) (superMethod i p x) (superMethod i q y) := by
  refine .get_bind fun m n hm _ => ?_
  rw [← hm.hops, hm.distances hi, hm.current]
  cases d with
  | none => exact .fail hpq (.same _)
  | some hops =>
    have hcls := hm.heap.getAt?_fixed R.old_plain.2.symm R.new_plain.2.symm n.current hops
    have hreceiver := receiver?_renamed hm hops
    simp only
    generalize m.heap.getAt? n.current hops superName = a at hcls
    generalize n.heap.getAt? n.current hops superName = b at hcls
    generalize receiver? m hops = c at hreceiver
    generalize receiver? n hops = d at hreceiver
    cases hcls with
    | none => exact .fail hpq (.same _)
    | some hab =>
      cases hab with
      | function => exact .fail hpq (.same _)
      | arrayMethod => exact .fail hpq (.same _)
      | data =>
        rename_i a _
        cases a with
        | cls id =>
          cases hreceiver with
          | none => exact .fail hpq (.same _)
          | some hcd =>
            cases hcd with
            | function => exact .fail hpq (.same _)
            | arrayMethod => exact .fail hpq (.same _)
            | data =>
              rename_i c _
              cases c with
              | object receiver => exact bindMethod_renames id hxy receiver
              | _ => exact .fail hpq (.same _)
        | _ => exact .fail hpq (.same _)

/-! ### Scopes -/

/-- A new frame comes with its marks. -/
theorem newFrame_renames {parent : FrameId} {ν : Marks} (hν : w.marks? parent = some ν) (marked : Bool)
    {bs cs : Bindings Value} (hbs : Bindings.Renamed R w marked bs cs) :
    Renames R w μ (fun w' a b => a = b ∧ w'.marks? a = some (marked :: ν)) (newFrame parent bs)
      (newFrame parent cs) := by
  refine .updateHeap fun h h' hh => ?_
  obtain ⟨hid, hmarks, hheap⟩ := hh.newFrame hν marked hbs
  exact ⟨_, List.prefix_append _ _, ⟨hid, hmarks⟩, hheap⟩

/-- A name is declared in the current scope. -/
theorem define_renames {x y : Ident} (hxy : x.Renamed R μ.own y) (hvu : v.Renamed R w u) :
    Renames R w μ (fun _ _ _ => True) (define x.name v) (define y.name u) := by
  refine .modify fun m n hm hμ => ⟨{ hm with heap := ?_ }, rfl⟩
  rw [hxy.name, ← hm.current]
  exact hm.heap.define hμ hxy.free hvu

/-! ### Calls -/

theorem arity_renamed {inner : Marks} {f g : Closure} (hfg : f.Renamed R w inner g) :
    f.declaration.parameters.length = g.declaration.parameters.length := by
  obtain ⟨_, _, hdeclaration⟩ := hfg.declaration
  obtain ⟨_, hparameters, _⟩ := hdeclaration.scope
  exact hparameters.length_eq

theorem arity?_renamed {h h' : Heap} (hh : h.Renamed R w h') (hvu : v.Renamed R w u) :
    arity? h v = arity? h' u := by
  cases hvu with
  | function hfg => exact congrArg some (arity_renamed hfg)
  | arrayMethod => rfl
  | data =>
    cases v with
    | cls id =>
      have hmethod := hh.contents.method? id initializerName
      unfold arity?
      dsimp only
      generalize h.method? id initializerName = f at hmethod
      generalize h'.method? id initializerName = g at hmethod
      cases hmethod with
      | none => rfl
      | some hfg => simp only [Option.map_some, Option.getD_some, arity_renamed hfg]
    | _ => rfl

theorem callNative_renames (f : Native) {vs us : List Value} (hargs : List.Forall₂ (Value.Renamed R w) vs us)
    {p q : Position} (hpq : p.SameLine q) :
    Renames R w μ (Value.Renamed R) (callNative f vs p) (callNative f us q) := by
  intro m n hm _
  have houtput : n.output = #[] ++ m.output := by rw [Array.empty_append, hm.output]
  have hbeside : Native.Beside (Closure.Renamed R w []) Position.SameLine #[] m n :=
    ⟨hm.heap.contents.arrays, houtput, hm.input, hm.files, hm.clock, hm.regex⟩
  have h := Native.run_related hbeside hm.heap.equalAgrees f hargs
  have hleaves : ∀ {good : Marking → Prop} {m' n' : Machine}, good w →
      Native.Leaves (Closure.Renamed R w []) Position.SameLine #[] m n m' n' →
        Leaves R w m.current good m' n' := by
    intro good m' n' hgood h
    have hheap : Heap.Renamed R w { m.heap with arrays := m'.heap.arrays }
        { n.heap with arrays := n'.heap.arrays } :=
      hm.heap.withContents rfl rfl ⟨hm.heap.contents.classes, hm.heap.contents.objects, h.beside.arrays⟩
    have houtput : m'.output = n'.output := (h.beside.output.trans Array.empty_append).symm
    rw [h.left, h.right]
    refine ⟨w, List.prefix_rfl, ?_, rfl, hgood⟩
    exact { hm with heap := hheap, output := houtput, input := h.beside.input, clock := h.beside.clock }
  refine .callNative (h.imp ?_ ?_)
  · exact fun v m' u n' h => hleaves h.1 h.2
  · exact fun e m' e' n' h => ⟨h.1 ▸ .failed hpq (.same _), hleaves trivial h.2⟩

theorem callArrayMethod_renames (id : ArrayId) (method : ArrayMethod) {p q : Position} (hpq : p.SameLine q)
    {vs us : List Value} (hargs : List.Forall₂ (Value.Renamed R w) vs us) :
    Renames R w μ (Value.Renamed R) (callArrayMethod id method p vs) (callArrayMethod id method q us) := by
  intro m n hm _
  have h := ArrayMethod.run_related hm.heap.contents.arrays id method hargs
  unfold Agree callArrayMethod
  dsimp only [EStateM.run]
  generalize method.run m.heap id vs = x at h
  generalize method.run n.heap id us = y at h
  cases h with
  | error fault => exact ⟨.failed hpq (.same _), w, List.prefix_rfl, hm, rfl, trivial⟩
  | @ok r r' h =>
    obtain ⟨v, k⟩ := r
    obtain ⟨u, k'⟩ := r'
    obtain ⟨hvu, harrays, hk, hk'⟩ := h
    have hheap : Heap.Renamed R w { m.heap with arrays := k.arrays } { n.heap with arrays := k'.arrays } :=
      hm.heap.withContents rfl rfl ⟨hm.heap.contents.classes, hm.heap.contents.objects, harrays⟩
    refine ⟨w, List.prefix_rfl, { hm with heap := ?_ }, rfl, hvu⟩
    dsimp only at hk hk' ⊢
    rw [hk, hk']
    exact hheap

theorem argumentBindings_renamed {marked : Bool} {ps qs : List Ident}
    (hps : List.Forall₂ (Ident.Renamed R marked) ps qs) {vs us : List Value}
    (hvs : List.Forall₂ (Value.Renamed R w) vs us) :
    Bindings.Renamed R w marked (argumentBindings ps vs) (argumentBindings qs us) := by
  have hfold : ∀ {bs cs : Bindings Value}, Bindings.Renamed R w marked bs cs →
      Bindings.Renamed R w marked
        ((ps.zip vs).foldl (fun bindings b => bindings.put b.1.name b.2) bs)
        ((qs.zip us).foldl (fun bindings b => bindings.put b.1.name b.2) cs) := by
    induction hps generalizing vs us with
    | nil => exact fun hbs => hbs
    | cons hpq _ ih =>
      intro bs cs hbs
      cases hvs with
      | nil => exact hbs
      | cons hvu hvs =>
        refine ih hvs ?_
        dsimp only
        rw [hpq.name]
        exact hbs.put hpq.free hvu
  exact hfold .nil

/-! ### Classes -/

theorem methodBindings_renamed {frame : FrameId} {ν : Marks} (hν : w.marks? frame = some ν)
    {fs gs : List FunctionDecl} (hfs : FunctionDecl.AllRenamed R (false :: ν) fs gs) :
    Bindings.Alike (Closure.Renamed R w [false]) (methodBindings frame fs) (methodBindings frame gs) := by
  have hfold : ∀ {fs gs : List FunctionDecl} {bs cs : Bindings Closure},
      FunctionDecl.AllRenamed R (false :: ν) fs gs → Bindings.Alike (Closure.Renamed R w [false]) bs cs →
        Bindings.Alike (Closure.Renamed R w [false])
          (fs.foldl (fun bindings m =>
            bindings.put m.name.name ⟨m, frame, decide (m.name.name = initializerName)⟩) bs)
          (gs.foldl (fun bindings m =>
            bindings.put m.name.name ⟨m, frame, decide (m.name.name = initializerName)⟩) cs) := by
    intro fs
    induction fs with
    | nil =>
      rintro _ bs cs ⟨⟩ hbs
      exact hbs
    | cons f fs ih =>
      rintro _ bs cs (_ | ⟨hfg, hrest⟩) hbs
      rw [List.foldl_cons, List.foldl_cons, ← hfg.name.name]
      exact ih hrest (hbs.put _ ⟨rfl, rfl, ν, hν, hfg⟩)
  exact hfold hfs .nil

theorem declareClass_renames {x y : Ident} (hkept : x.Kept y) (hxy : x.Renamed R μ.own y)
    {clause : Option Reference} {c : Option ClassId} (hclause : c.isSome = clause.isSome)
    {fs gs : List FunctionDecl} (hfs : FunctionDecl.AllRenamed R (false :: Marks.ofClass clause μ) fs gs) :
    Renames R w μ (fun _ _ _ => True) (declareClass x c fs) (declareClass y c gs) := by
  have hmake : ∀ (w' : Marking) (frame : FrameId), w'.marks? frame = some (Marks.ofClass clause μ) →
      Renames R w' μ (fun _ _ _ => True)
        (do
          let cls ← Exec.updateHeap fun h => h.newClass ⟨x.name, c, methodBindings frame fs⟩
          define x.name (.cls cls))
        (do
          let cls ← Exec.updateHeap fun h => h.newClass ⟨y.name, c, methodBindings frame gs⟩
          define y.name (.cls cls)) := by
    intro w' frame hframe
    refine Renames.bind (P := fun _ a b => a = b) (.updateHeap fun h h' hh => ?_) fun w₂ _ cls _ heq => ?_
    · have hnew := hh.contents.newClass (c := ⟨x.name, c, methodBindings frame fs⟩)
        (d := ⟨y.name, c, methodBindings frame gs⟩)
        ⟨hkept.name, rfl, methodBindings_renamed hframe hfs⟩
      exact ⟨w', List.prefix_rfl, hnew.1, hh.withContents rfl rfl hnew.2⟩
    · exact heq ▸ define_renames hxy (.data trivial)
  unfold declareClass
  have hnil : Value.Renamed R w .nil .nil := .data trivial
  refine (define_renames hxy hnil).bind fun w₁ _ _ _ _ => ?_
  refine .get_bind fun m n hm hμ => ?_
  rw [← hm.current]
  cases c with
  | none =>
    refine hmake w₁ m.current ?_
    rw [Marks.ofClass, ← hclause]
    exact hμ
  | some id =>
    have hbinding : Bindings.Renamed R w₁ false [(superName, .cls id)] [(superName, .cls id)] :=
      .cons ⟨Renaming.name_false.symm, nofun, .data trivial⟩ .nil
    refine (newFrame_renames hμ false hbinding).bind fun w₂ _ frame _ heq => ?_
    rw [← heq.1]
    refine hmake w₂ frame ?_
    rw [Marks.ofClass, ← hclause]
    exact heq.2

theorem superclassOf_renames {r r' : Reference} (hr : r.Renamed R μ r') :
    Renames R w μ (fun _ a b => a = b) (superclassOf r) (superclassOf r') := by
  refine (read_renames hr).bind fun w' _ v u hvu => ?_
  cases hvu with
  | function => exact .fail (line_renamed hr) (.same _)
  | arrayMethod => exact .fail (line_renamed hr) (.same _)
  | data =>
    cases v with
    | cls id => exact .pure rfl
    | _ => exact .fail (line_renamed hr) (.same _)

end Exec

end LoxLang
