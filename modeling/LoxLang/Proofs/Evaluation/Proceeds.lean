import LoxLang.Proofs.Evaluation.Changes

/-!
How computations proceed. A computation that begins in an intact state comes back to the scope that it was
run in, and it leaves a heap that has changed step by step. So do the tasks that it comes to, its parts: each
of them begins in a state behind changes, in which it is prepared, and changes lead from its end to the end of
the whole.
-/

namespace LoxLang

open Exec
open Heap (Changes)

/-! ### Tasks that are prepared -/

namespace Task

/-- The values that a task has been given. -/
def given : Task → List Value
  | property v _ => [v]
  | call _ callee arguments _ => callee :: arguments
  | instantiate _ id arguments => .cls id :: arguments
  | invoke _ f arguments => .function f :: arguments
  | _ => []

/-- The code of a task is like that of parsed programs. -/
def WellFormed : Task → Prop
  | evaluate _ e => e.WellFormed
  | evaluateAll _ es => Expr.AllWellFormed es
  | execute _ s => s.WellFormed
  | loop _ condition body increment => (Stmt.loop condition body increment).WellFormed
  | executeAll _ body => Stmt.AllWellFormed body
  | _ => True

end Task

structure Machine.Intact (m : Machine) : Prop where
  heap : m.heap.Intact
  current : m.current.index < m.heap.frames.size
  /-- Code runs in scopes of blocks and calls, and in the outermost one. -/
  plain : ∀ x, (m.heap.ownValue? m.current x).isSome → Plain x

/-- The task can begin in the state: nothing dangles, neither in the heap nor in what the task is given. -/
structure Task.Prepared (t : Task) (m : Machine) : Prop where
  intact : m.Intact
  code : t.WellFormed
  given : ∀ v ∈ t.given, v.Live m.heap

/-- The state behind code that has run in the current scope. -/
structure Machine.After (R : Task → Machine → Prop) (m m' : Machine) : Prop where
  current : m'.current = m.current
  changes : Changes R m.heap m'.heap

/-- Between two states a task is passed that begins in a third one, in the same scope or in a new one. -/
structure Task.Passed (R : Task → Machine → Prop) (t : Task) (m₁ m m' : Machine) : Prop where
  prepared : t.Prepared m₁
  scope : m₁.current = m.current ∨ m.heap.frames.size ≤ m₁.current.index
  before : Changes R m.heap m₁.heap
  behind : Changes R (t.after m₁).heap m'.heap

/-- If what completes a statement is a value, it is live. -/
def Completion.Live (h : Heap) (c : Completion) : Prop :=
  ∀ v, c = .returned v → v.Live h

namespace Machine

variable {R : Task → Machine → Prop} {m m' m'' : Machine}

theorem After.refl (m : Machine) : m.After R m :=
  ⟨rfl, .refl⟩

theorem After.trans (h₁ : m.After R m') (h₂ : m'.After R m'') : m.After R m'' :=
  ⟨h₂.current.trans h₁.current, h₁.changes.trans h₂.changes⟩

theorem Intact.after (hm : m.Intact) (h : m.After R m') : m'.Intact where
  heap := h.changes.intact hm.heap
  current := by
    rw [h.current]
    exact Nat.lt_of_lt_of_le hm.current h.changes.extends.frames
  plain := by
    intro x hx
    by_contra hplain
    rw [h.current, h.changes.ownValue?_special hm.current hplain] at hx
    exact hplain (hm.plain x hx)

/-- Code is about to run in a scope that has just been made. -/
theorem Intact.enter (hm : m.Intact) {parent : FrameId} {bindings : Bindings Value}
    (hchange : Heap.Change R m.heap (m.heap.newFrame (some parent) bindings).2)
    (hnames : ∀ x, (bindings.lookup x).isSome → Plain x) :
    Machine.Intact { m with
      heap := (m.heap.newFrame (some parent) bindings).2
      current := (m.heap.newFrame (some parent) bindings).1 } where
  heap := hchange.intact hm.heap
  current := by simp [Heap.newFrame]
  plain := by
    intro x hx
    rw [Heap.ownValue?, Heap.frame?_newFrame_self] at hx
    exact hnames x hx

end Machine

namespace Task.Passed

variable {R : Task → Machine → Prop} {t : Task} {m m' m'' m₁ : Machine}

/-- More happens before. -/
theorem behind_after (h : t.Passed R m₁ m' m'') (hafter : m.After R m') : t.Passed R m₁ m m'' where
  prepared := h.prepared
  scope := by
    rcases h.scope with hsame | hnew
    · exact .inl (hsame.trans hafter.current)
    · exact .inr (Nat.le_trans hafter.changes.extends.frames hnew)
  before := hafter.changes.trans h.before
  behind := h.behind

/-- More happens behind. -/
theorem go_on (h : t.Passed R m₁ m m') (hchanges : Changes R m'.heap m''.heap) : t.Passed R m₁ m m'' :=
  ⟨h.prepared, h.scope, h.before, h.behind.trans hchanges⟩

end Task.Passed

namespace Exec

/-- How a computation proceeds: what it leaves behind, however it ends, and which tasks it passes. -/
structure Proceeds {α : Type} (R : Task → Machine → Prop) (x : Exec α) (m : Machine)
    (parts : Task → Machine → Prop) (good : Heap → α → Prop) : Prop where
  ends : Ends x m (fun a m' => m.After R m' ∧ good m'.heap a) (fun _ m' => m.After R m')
  passes : ∀ t m₁, parts t m₁ → t.Passed R m₁ m (x.after m)

/-- No task. -/
def Nowhere (_ : Task) (_ : Machine) : Prop :=
  False

/-- One task and no other. -/
def Only (t : Task) (m : Machine) (t' : Task) (m' : Machine) : Prop :=
  t' = t ∧ m' = m

variable {α β : Type} {R : Task → Machine → Prop} {x : Exec α} {f : α → Exec β} {m m₁ : Machine}
  {parts parts' : Task → Machine → Prop} {good : Heap → α → Prop} {good' : Heap → β → Prop}

theorem after_ok {a : α} (hrun : x.run m = .ok a m₁) : x.after m = m₁ := by
  rw [after, hrun]

theorem after_error {e : Halt} (hrun : x.run m = .error e m₁) : x.after m = m₁ := by
  rw [after, hrun]

theorem after_bind_ok {a : α} (hrun : x.run m = .ok a m₁) : (x >>= f).after m = (f a).after m₁ := by
  rw [after, EStateM.run_bind, hrun]
  rfl

theorem after_bind_error {e : Halt} (hrun : x.run m = .error e m₁) : (x >>= f).after m = m₁ := by
  rw [after, EStateM.run_bind, hrun]

namespace Proceeds

theorem after (h : Proceeds R x m parts good) : m.After R (x.after m) := by
  have hends := h.ends
  unfold Ends at hends
  unfold Exec.after
  cases hrun : x.run m with
  | ok a m' =>
    rw [hrun] at hends
    exact hends.1
  | error e m' =>
    rw [hrun] at hends
    exact hends

theorem covers (h : Proceeds R x m parts good) (hparts : ∀ t m₁, parts' t m₁ → parts t m₁) :
    Proceeds R x m parts' good :=
  ⟨h.ends, fun t m₁ ht => h.passes t m₁ (hparts t m₁ ht)⟩

/-- A computation that comes to no task. -/
theorem of_ends (h : Ends x m (fun a m' => m.After R m' ∧ good m'.heap a) (fun _ m' => m.After R m')) :
    Proceeds R x m Nowhere good :=
  ⟨h, fun _ _ ht => ht.elim⟩

theorem pure {a : α} (ha : good m.heap a) : Proceeds R (Pure.pure a) m Nowhere good :=
  of_ends (Ends.pure ⟨.refl m, ha⟩)

theorem fail (position : Position) (fault : RuntimeFault) :
    Proceeds R (Exec.fail position fault : Exec α) m Nowhere good :=
  of_ends (Ends.throw (.refl m))

theorem exhausted : Proceeds R (Exec.exhausted : Exec α) m Nowhere good :=
  of_ends (Ends.throw (.refl m))

/-- A computation that leaves the heap alone. -/
theorem still (h : Ends x m (fun a m' => (m'.heap = m.heap ∧ m'.current = m.current) ∧ good m.heap a)
    (fun _ m' => m'.heap = m.heap ∧ m'.current = m.current)) : Proceeds R x m Nowhere good := by
  refine of_ends (h.imp ?_ ?_)
  · rintro a m' ⟨⟨hheap, hcurrent⟩, ha⟩
    exact ⟨⟨hcurrent, hheap ▸ .refl⟩, hheap ▸ ha⟩
  · rintro e m' ⟨hheap, hcurrent⟩
    exact ⟨hcurrent, hheap ▸ .refl⟩

theorem bind {p : α → Machine → Task → Machine → Prop} (hx : Proceeds R x m parts good)
    (hf : ∀ a m', x.run m = .ok a m' → m.After R m' → good m'.heap a →
      Proceeds R (f a) m' (p a m') good') :
    Proceeds R (x >>= f) m
      (fun t m₁ => parts t m₁ ∨ ∃ a m', x.run m = .ok a m' ∧ p a m' t m₁) good' := by
  have hends := hx.ends
  unfold Ends at hends
  cases hrun : x.run m with
  | ok a m' =>
    rw [hrun] at hends
    obtain ⟨hafter, ha⟩ := hends
    have hrest := hf a m' hrun hafter ha
    have hwhole : (x >>= f).after m = (f a).after m' := after_bind_ok hrun
    constructor
    case ends =>
      unfold Ends
      rw [EStateM.run_bind, hrun]
      exact hrest.ends.imp (fun _ _ hb => ⟨hafter.trans hb.1, hb.2⟩) fun _ _ he => hafter.trans he
    case passes =>
      rintro t m₁ (ht | ⟨a', m'', hrun', ht⟩)
      · have hpassed := hx.passes t m₁ ht
        rw [after_ok hrun] at hpassed
        exact hwhole ▸ hpassed.go_on hrest.after.changes
      · cases hrun'
        exact hwhole ▸ (hrest.passes t m₁ ht).behind_after hafter
  | error e m' =>
    rw [hrun] at hends
    have hwhole : (x >>= f).after m = m' := after_bind_error hrun
    constructor
    case ends =>
      unfold Ends
      rw [EStateM.run_bind, hrun]
      exact hends
    case passes =>
      rintro t m₁ (ht | ⟨a', m'', hrun', ht⟩)
      · have hpassed := hx.passes t m₁ ht
        rw [after_error hrun] at hpassed
        exact hwhole ▸ hpassed
      · cases hrun'

theorem ite {c : Prop} [Decidable c] {y : Exec α} {p q : Task → Machine → Prop}
    (hthen : c → Proceeds R x m p good) (helse : ¬c → Proceeds R y m q good) :
    Proceeds R (if c then x else y) m (fun t m₁ => c ∧ p t m₁ ∨ ¬c ∧ q t m₁) good := by
  by_cases hc : c
  · rw [if_pos hc]
    refine (hthen hc).covers ?_
    rintro t m₁ (⟨-, ht⟩ | ⟨hnot, -⟩)
    · exact ht
    · exact absurd hc hnot
  · rw [if_neg hc]
    refine (helse hc).covers ?_
    rintro t m₁ (⟨hyes, -⟩ | ⟨-, ht⟩)
    · exact absurd hyes hc
    · exact ht

theorem get_bind {f : Machine → Exec β} (h : Proceeds R (f m) m parts good') :
    Proceeds R (get >>= f) m parts good' :=
  ⟨Ends.get_bind h.ends, h.passes⟩

/-- A single change. -/
theorem updateHeap {u : Heap → α × Heap} (hchange : Changes R m.heap (u m.heap).2)
    (ha : good (u m.heap).2 (u m.heap).1) : Proceeds R (Exec.updateHeap u) m Nowhere good :=
  of_ends ⟨⟨rfl, hchange⟩, ha⟩

theorem modify {u : Machine → Machine} (hafter : m.After R (u m)) :
    Proceeds R (modify u : Exec Unit) m Nowhere fun _ _ => True :=
  of_ends (Ends.of_modify ⟨hafter, trivial⟩)

/-- Code that runs in a new scope. -/
theorem inside {parent : FrameId} {bindings : Bindings Value}
    (hchange : Heap.Change R m.heap (m.heap.newFrame (some parent) bindings).2)
    (hx : Proceeds R x { m with
      heap := (m.heap.newFrame (some parent) bindings).2
      current := (m.heap.newFrame (some parent) bindings).1 } parts good) :
    Proceeds R (newFrame parent bindings >>= fun frame => inFrame frame x) m parts good := by
  constructor
  case ends =>
    refine .newScope (hx.ends.imp ?_ ?_)
    · exact fun a m' h => ⟨⟨rfl, .head hchange h.1.changes⟩, h.2⟩
    · exact fun e m' h => ⟨rfl, .head hchange h.changes⟩
  case passes =>
    intro t m₁ ht
    have hpassed := hx.passes t m₁ ht
    have hnew : m.heap.frames.size ≤ m₁.current.index := by
      rcases hpassed.scope with hsame | hnew
      · rw [hsame]
        exact Nat.le_refl _
      · exact Nat.le_trans hchange.extends.frames hnew
    refine ⟨hpassed.prepared, .inr hnew, .head hchange hpassed.before, ?_⟩
    have hbehind := hpassed.behind
    have hrun : (newFrame parent bindings >>= fun frame => inFrame frame x).run m =
        inFrame (m.heap.newFrame (some parent) bindings).1 x
          { m with heap := (m.heap.newFrame (some parent) bindings).2 } := rfl
    unfold Exec.after at hbehind ⊢
    rw [hrun]
    unfold inFrame
    dsimp only [EStateM.run] at hbehind ⊢
    cases hresult : x _ with
    | ok a m' =>
      rw [hresult] at hbehind
      exact hbehind
    | error e m' =>
      rw [hresult] at hbehind
      exact hbehind

/-- A computation that is a task. -/
theorem whole (h : Proceeds R x m parts good) {t : Task} (hx : x.after m = t.after m) (ht : t.Prepared m) :
    Proceeds R x m (Only t m) good := by
  refine ⟨h.ends, ?_⟩
  rintro _ _ ⟨rfl, rfl⟩
  exact ⟨ht, .inl rfl, .refl, hx ▸ .refl⟩

end Proceeds

/-! ### Operators, variables and properties -/

theorem unary_proceeds (op : UnaryOp) (position : Position) (v : Value) :
    Proceeds R (unary op position v) m Nowhere Value.Live := by
  unfold unary
  split
  · exact .pure trivial
  · exact .pure trivial
  · exact .fail _ _

theorem binary_proceeds (op : BinaryOp) (position : Position) (left right : Value) :
    Proceeds R (binary op position left right) m Nowhere Value.Live := by
  unfold binary
  split
  · exact .get_bind (.pure trivial)
  · exact .get_bind (.pure trivial)
  · exact .pure trivial
  · exact .pure trivial
  · exact .fail _ _
  · exact .pure trivial
  · exact .fail _ _

theorem lookUp?_live {r : Reference} {v : Value} (hm : m.Intact) (hv : lookUp? m r = some v) :
    v.Live m.heap := by
  unfold lookUp? at hv
  split at hv
  · exact hm.heap.getAt? hv
  · exact hm.heap.get? hv

theorem read_proceeds (hm : m.Intact) (r : Reference) : Proceeds R (read r) m Nowhere Value.Live := by
  apply Proceeds.get_bind
  cases hv : lookUp? m r with
  | none => exact .fail _ _
  | some v => exact .pure (lookUp?_live hm hv)

theorem assign_proceeds {r : Reference} {v : Value}
    (hchange : ∀ f, target? m r = some f → Heap.Change R m.heap (m.heap.define f r.ident.name v)) :
    Proceeds R (assign r v) m Nowhere fun _ _ => True := by
  apply Proceeds.get_bind
  rw [reassign?_eq]
  cases hf : target? m r with
  | none => exact .fail _ _
  | some f => exact .of_ends ⟨⟨rfl, .single (hchange f hf)⟩, trivial⟩

theorem bind_proceeds {f : Closure} {cls : ClassId} {name : String} {receiver : ObjectId} (hm : m.Intact)
    (hseeks : m.heap.Seeks receiver cls) (hf : m.heap.method? cls name = some f) :
    Proceeds R (updateHeap fun h => h.bind f receiver) m Nowhere fun h g => Closure.Live h g := by
  have hlive := hm.heap.method? hf
  have hthis : ∀ b ∈ [(thisName, Value.object receiver)], b.2.Live m.heap := by simp [Value.Live]
  refine .updateHeap (.single (.newFrame hlive.frame hthis (.receiver hseeks hf))) ⟨?_, hlive.code⟩
  simp [Heap.bind, Heap.newFrame]

theorem bindMethod_proceeds (hm : m.Intact) {cls : ClassId} {receiver : ObjectId}
    (hseeks : m.heap.Seeks receiver cls) (name : Ident) :
    Proceeds R (bindMethod cls name receiver) m Nowhere Value.Live := by
  apply Proceeds.get_bind
  cases hf : m.heap.method? cls name.name with
  | none => exact .fail _ _
  | some f =>
    refine ((bind_proceeds hm hseeks hf).bind fun g m' _ _ hg => .pure (a := Value.function g) hg).covers ?_
    exact fun _ _ ht => ht.elim

theorem property_proceeds (hm : m.Intact) (v : Value) (name : Ident) :
    Proceeds R (property v name) m Nowhere Value.Live := by
  unfold property
  split
  case h_1 id =>
    apply Proceeds.get_bind
    cases ho : m.heap.object? id with
    | none => exact .fail _ _
    | some o =>
      dsimp only
      cases hv : o.fields.lookup name.name with
      | some v => exact .pure (hm.heap.field ho hv)
      | none => exact bindMethod_proceeds hm (.own ho) name
  case h_2 id =>
    cases ArrayMethod.ofName? name.name with
    | some method => exact .pure trivial
    | none => exact .fail _ _
  case h_3 => exact .fail _ _

/-- The class that `super` means is the superclass around the scope of the receiver. -/
theorem seeks_super {hops : Nat} {cls : ClassId} {receiver : ObjectId}
    (hcls : m.heap.getAt? m.current hops superName = some (.cls cls))
    (hreceiver : receiver? m hops = some (.object receiver)) : m.heap.Seeks receiver cls := by
  cases hops with
  | zero => cases hreceiver
  | succ inner =>
    obtain ⟨scope, hscope, hthis⟩ := Option.bind_eq_some_iff.mp hreceiver
    obtain ⟨outer, houter, hsuper⟩ := Option.bind_eq_some_iff.mp hcls
    rw [Heap.ancestor?_succ, hscope] at houter
    exact .super houter hthis hsuper

theorem superMethod_proceeds (hm : m.Intact) (id : NodeId) (position : Position) (method : Ident) :
    Proceeds R (superMethod id position method) m Nowhere Value.Live := by
  apply Proceeds.get_bind
  cases m.hops.find? id with
  | none => exact .fail _ _
  | some hops =>
    dsimp only
    split
    case h_1 cls hcls =>
      split
      case h_1 receiver hreceiver => exact bindMethod_proceeds hm (seeks_super hcls hreceiver) method
      case h_2 => exact .fail _ _
    case h_2 => exact .fail _ _

/-! ### Calls and declarations -/

theorem callNative_proceeds (hm : m.Intact) (f : Native) (arguments : List Value) (paren : Position) :
    Proceeds R (callNative f arguments paren) m Nowhere Value.Live := by
  have hvalues := Native.run_given (fun _ => Value.Live.of_inert) hm.heap.items f arguments
  have harrays := Heap.native_arrays f arguments m
  have hkept := callNative_keeps f arguments paren m
  apply Proceeds.of_ends
  have hends : Ends (callNative f arguments paren) m
      (fun v m' => Heap.Change R m.heap m'.heap ∧ v.Live m'.heap)
      (fun _ m' => Heap.Change R m.heap m'.heap) := by
    refine .callNative ((hvalues.both harrays).imp ?_ ?_)
    · rintro v m' ⟨hvalues, harrays⟩
      have hchange : Heap.Change R m.heap m'.heap := .arrays harrays hvalues.2
      exact ⟨hchange, hvalues.1.mono hchange.extends⟩
    · rintro fault m' ⟨hvalues, harrays⟩
      exact .arrays harrays hvalues
  refine (hends.both hkept).imp ?_ ?_
  · exact fun v m' h => ⟨⟨h.2.current, .single h.1.1⟩, h.1.2⟩
  · exact fun fault m' h => ⟨h.2.2.current, .single h.1⟩

theorem callArrayMethod_proceeds (hm : m.Intact) (id : ArrayId) (method : ArrayMethod) (position : Position)
    {arguments : List Value} (harguments : ∀ v ∈ arguments, v.Live m.heap) :
    Proceeds R (callArrayMethod id method position arguments) m Nowhere Value.Live := by
  apply Proceeds.of_ends
  unfold Ends callArrayMethod
  dsimp only [EStateM.run]
  cases hresult : method.run m.heap id arguments with
  | error fault => exact .refl m
  | ok result =>
    obtain ⟨v, heap⟩ := result
    obtain ⟨hv, hitems⟩ := ArrayMethod.run_given (fun _ => Value.Live.of_inert) hm.heap.items id method
      harguments hresult
    have hchange : Heap.Change R m.heap heap := .arrays (Heap.arrayMethod_arrays hresult) hitems
    exact ⟨⟨rfl, .single hchange⟩, hv.mono hchange.extends⟩

theorem define_proceeds {n : Nat} {s : Stmt} {name : String} {v : Value} (htask : R (.execute (n + 1) s) m₁)
    (hcurrent : m.current = m₁.current) (hs : s.declared? = some name) (hv : v.Live m.heap)
    (hname : Plain name) : Proceeds R (define name v) m Nowhere fun _ _ => True := by
  refine .modify ⟨rfl, .single ?_⟩
  rw [hcurrent]
  exact .declare htask hs hv hname

/-- A parameter is bound to one of the arguments. -/
theorem argumentBindings_mem (parameters : List Ident) (arguments : List Value) :
    ∀ b ∈ argumentBindings parameters arguments, b.2 ∈ arguments := by
  have hfold : ∀ (pairs : List (Ident × Value)) (bindings : Bindings Value),
      (∀ p ∈ pairs, p.2 ∈ arguments) → (∀ b ∈ bindings, b.2 ∈ arguments) →
        ∀ b ∈ pairs.foldl (fun bindings b => bindings.put b.1.name b.2) bindings, b.2 ∈ arguments := by
    intro pairs
    induction pairs with
    | nil => exact fun _ _ hbindings => hbindings
    | cons p rest ih =>
      intro bindings hpairs hbindings
      obtain ⟨hp, hrest⟩ := List.forall_mem_cons.mp hpairs
      exact ih _ hrest (Bindings.forall_put hbindings hp)
  exact hfold _ [] (fun p hp => (List.of_mem_zip hp).2) (by simp)

/-- A call binds no names but those of the parameters. -/
theorem argumentBindings_names (parameters : List Ident) (arguments : List Value) (x : String)
    (hx : ((argumentBindings parameters arguments).lookup x).isSome) : x ∈ parameters.map Ident.name := by
  have hfold : ∀ (pairs : List (Ident × Value)) (bindings : Bindings Value),
      ((pairs.foldl (fun bindings b => bindings.put b.1.name b.2) bindings).lookup x).isSome →
        x ∈ pairs.map (·.1.name) ∨ (bindings.lookup x).isSome := by
    intro pairs
    induction pairs with
    | nil => exact fun _ hbound => .inr hbound
    | cons p rest ih =>
      intro bindings hbound
      rcases ih _ hbound with hrest | hput
      · exact .inl (List.mem_cons_of_mem _ hrest)
      · rw [Bindings.lookup_put] at hput
        split at hput
        case isTrue hname => exact .inl (hname ▸ List.mem_cons_self)
        case isFalse => exact .inr hput
  rcases hfold _ [] hx with hpair | hnone
  · obtain ⟨p, hp, rfl⟩ := List.mem_map.mp hpair
    exact List.mem_map_of_mem (List.of_mem_zip hp).1
  · cases hnone

/-- A superclass clause changes nothing, and yields a class that is there. -/
theorem superclassOf_ends (hm : m.Intact) (r : Reference) :
    Ends (superclassOf r) m (fun c m' => m' = m ∧ c.index < m.heap.classes.size) (fun _ m' => m' = m) := by
  have hread : Ends (read r) m (fun v m' => m' = m ∧ v.Live m.heap) (fun _ m' => m' = m) := by
    apply Ends.get_bind
    cases hv : lookUp? m r with
    | none => exact Ends.throw rfl
    | some v => exact Ends.pure ⟨rfl, lookUp?_live hm hv⟩
  apply hread.bind
  rintro v _ ⟨rfl, hv⟩
  cases v with
  | cls id => exact Ends.pure ⟨rfl, hv⟩
  | _ => exact Ends.throw rfl

theorem superclassOf_proceeds (hm : m.Intact) (r : Reference) :
    Proceeds R (superclassOf r) m Nowhere fun _ _ => True := by
  refine .still ((superclassOf_ends hm r).imp ?_ ?_)
  · rintro c _ ⟨rfl, -⟩
    exact ⟨⟨rfl, rfl⟩, trivial⟩
  · rintro _ _ rfl
    exact ⟨rfl, rfl⟩

end Exec

/-! ### Declarations of classes -/

namespace Heap

/-- The scope that the methods of a class see, with the superclass if there is one. -/
def classScope (h : Heap) (scope : FrameId) : Option ClassId → FrameId × Heap
  | none => (scope, h)
  | some c => h.newFrame (some scope) [(superName, .cls c)]

/-- The class that a declaration makes. -/
def declaredClass (h : Heap) (scope : FrameId) (name : String) (superclass : Option ClassId)
    (methods : List FunctionDecl) : ClassRecord :=
  ⟨name, superclass, methodBindings ((h.define scope name .nil).classScope scope superclass).1 methods⟩

/-- The heap behind the declaration of a class in a scope. -/
def declareClass (h : Heap) (scope : FrameId) (name : String) (superclass : Option ClassId)
    (methods : List FunctionDecl) : Heap :=
  let h' := ((h.define scope name .nil).classScope scope superclass).2
  let (cls, h') := h'.newClass (h.declaredClass scope name superclass methods)
  h'.define scope name (.cls cls)

theorem declareClass_run (m : Machine) (name : Ident) (superclass : Option ClassId)
    (methods : List FunctionDecl) : (Exec.declareClass name superclass methods).run m =
      .ok () { m with heap := m.heap.declareClass m.current name.name superclass methods } := by
  cases superclass <;> rfl

end Heap

namespace Exec

variable {n : Nat} {name : Ident} {clause : Option Reference} {methods : List FunctionDecl}
  {superclass : Option ClassId} {R : Task → Machine → Prop} {m : Machine}

theorem allWellFormed_mem (hmethods : FunctionDecl.AllWellFormed methods) : ∀ f ∈ methods, f.WellFormed := by
  induction methods with
  | nil => simp
  | cons f rest ih => exact List.forall_mem_cons.mpr ⟨hmethods.1, ih hmethods.2.2⟩

/-- The scope that the methods see is the one of the declaration, or a new one inside it. -/
theorem classScope_changes {h : Heap} {scope : FrameId} (hscope : scope.index < h.frames.size)
    (hsuperclass : ∀ up, superclass = some up → up.index < h.classes.size) :
    Changes R h (h.classScope scope superclass).2 ∧
      (∃ steps, (h.classScope scope superclass).2.ancestor? (h.classScope scope superclass).1 steps =
        some scope) ∧
      (h.classScope scope superclass).1.index < (h.classScope scope superclass).2.frames.size ∧
      (h.classScope scope superclass).2.classes = h.classes := by
  cases superclass with
  | none => exact ⟨.refl, ⟨0, rfl⟩, hscope, rfl⟩
  | some c =>
    have hsuper : ∀ b ∈ [(superName, Value.cls c)], b.2.Live h := by
      intro b hb
      obtain rfl := List.mem_singleton.mp hb
      exact hsuperclass c rfl
    refine ⟨.single (.newFrame hscope hsuper (.superclass scope c)), ⟨1, ?_⟩, ?_, rfl⟩
    · simp only [Heap.classScope, Heap.ancestor?, Heap.parent?, Heap.frame?_newFrame_self]
      rfl
    · simp [Heap.classScope, Heap.newFrame]

/-- The methods can see it. -/
theorem classScope_sees {h : Heap} {scope : FrameId} (hplain : h.ownValue? scope superName = none)
    (hmethods : ∀ f, h.HasMethod f → f.frame.index < h.frames.size) :
    (h.classScope scope superclass).2.Sees (h.classScope scope superclass).1 superclass := by
  cases superclass with
  | none => exact hplain
  | some c =>
    refine ⟨?_, hmethods⟩
    simp only [Heap.classScope, Heap.ownValue?, Heap.frame?_newFrame_self]
    rfl

/-- The declaration of a class changes the heap step by step. -/
theorem declareClass_changes (hm : m.Intact) (hname : Plain name.name)
    (htask : R (.execute (n + 1) (.classDecl name clause methods)) m)
    (hafter : ((Task.execute (n + 1) (.classDecl name clause methods)).after m).heap =
      m.heap.declareClass m.current name.name superclass methods)
    (hsuperclass : ∀ up, superclass = some up → up.index < m.heap.classes.size)
    (hmethods : FunctionDecl.AllWellFormed methods) :
    Changes R m.heap (m.heap.declareClass m.current name.name superclass methods) := by
  have hnil : Heap.Change R m.heap (m.heap.define m.current name.name .nil) :=
    .declare htask rfl trivial hname
  have hcurrent : m.current.index < (m.heap.define m.current name.name .nil).frames.size :=
    Nat.lt_of_lt_of_le hm.current hnil.extends.frames
  obtain ⟨hscope, hframe, hexists, hclasses⟩ :=
    classScope_changes (R := R) (h := m.heap.define m.current name.name .nil) hcurrent hsuperclass
  have hclasses : _ = m.heap.classes := hclasses
  have hmade : ((Task.execute (n + 1) (.classDecl name clause methods)).after m).heap.class?
      ⟨m.heap.classes.size⟩ = some (m.heap.declaredClass m.current name.name superclass methods) := by
    rw [hafter, ← hclasses]
    exact Heap.class?_newClass _ _
  have hplain : (m.heap.define m.current name.name .nil).ownValue? m.current superName = none := by
    rw [hnil.ownValue?_special hm.current fun h => h.2 rfl]
    exact Option.not_isSome_iff_eq_none.mp fun h => (hm.plain superName h).2 rfl
  have holder : ∀ f, (m.heap.define m.current name.name .nil).HasMethod f →
      f.frame.index < (m.heap.define m.current name.name .nil).frames.size := fun f hf =>
    ((hnil.intact hm.heap).methods f hf).frame
  have hclass : Heap.Change R _
      (Heap.newClass _ (m.heap.declaredClass m.current name.name superclass methods)).2 :=
    .newClass htask hclasses hmade hframe (fun up hup => hclasses ▸ hsuperclass up hup)
      (fun f hf => ⟨hexists, allWellFormed_mem hmethods f hf⟩) (FunctionDecl.nodup_ids hmethods)
      (classScope_sees hplain holder)
  have hcls : Heap.Change R _ (m.heap.declareClass m.current name.name superclass methods) :=
    .declare htask rfl (by simp [Value.Live]) hname
  exact ((Relation.ReflTransGen.head hnil hscope).tail hclass).tail hcls

theorem declareClass_proceeds (hm : m.Intact) (hname : Plain name.name)
    (htask : R (.execute (n + 1) (.classDecl name clause methods)) m)
    (hafter : ((Task.execute (n + 1) (.classDecl name clause methods)).after m).heap =
      m.heap.declareClass m.current name.name superclass methods)
    (hsuperclass : ∀ up, superclass = some up → up.index < m.heap.classes.size)
    (hmethods : FunctionDecl.AllWellFormed methods) :
    Proceeds R (declareClass name superclass methods) m Nowhere fun _ _ => True := by
  apply Proceeds.of_ends
  unfold Ends
  rw [Heap.declareClass_run]
  exact ⟨⟨rfl, declareClass_changes hm hname htask hafter hsuperclass hmethods⟩, trivial⟩

end Exec

end LoxLang
