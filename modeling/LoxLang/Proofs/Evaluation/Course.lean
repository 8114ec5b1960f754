import LoxLang.Proofs.Evaluation.Proceeds

/-!
How evaluation proceeds. Whatever is evaluated in an intact state, and however deep, the heap changes step by
step while it runs, through the states in which its parts begin and end.
-/

namespace LoxLang

open Exec
open Heap (Changes)

/-- The parts of tasks of the history `R` belong to it. -/
def Leads.Closed (R : Task → Machine → Prop) : Prop :=
  ∀ {t m t' m'}, R t m → Leads t m t' m' → R t' m'

/-- How evaluation to some depth proceeds. -/
structure ProceedsWithin (R : Task → Machine → Prop) (n : Nat) : Prop where
  evaluate : ∀ {e m}, (Task.evaluate n e).Prepared m → R (.evaluate n e) m →
    Proceeds R (evaluate n e) m (Leads (.evaluate n e) m) Value.Live
  evaluateAll : ∀ {es m}, (Task.evaluateAll n es).Prepared m → R (.evaluateAll n es) m →
    Proceeds R (evaluateAll n es) m (Leads (.evaluateAll n es) m) fun h vs => ∀ v ∈ vs, v.Live h
  call : ∀ {f vs paren m}, (Task.call n f vs paren).Prepared m → R (.call n f vs paren) m →
    Proceeds R (call n f vs paren) m (Leads (.call n f vs paren) m) Value.Live
  instantiate : ∀ {id vs m}, (Task.instantiate n id vs).Prepared m → R (.instantiate n id vs) m →
    Proceeds R (instantiate n id vs) m (Leads (.instantiate n id vs) m) Value.Live
  invoke : ∀ {f vs m}, (Task.invoke n f vs).Prepared m → R (.invoke n f vs) m →
    Proceeds R (invoke n f vs) m (Leads (.invoke n f vs) m) Value.Live
  execute : ∀ {s m}, (Task.execute n s).Prepared m → R (.execute n s) m →
    Proceeds R (execute n s) m (Leads (.execute n s) m) Completion.Live
  loop : ∀ {condition body increment m}, (Task.loop n condition body increment).Prepared m →
    R (.loop n condition body increment) m →
    Proceeds R (loop n condition body increment) m (Leads (.loop n condition body increment) m)
      Completion.Live
  executeAll : ∀ {body m}, (Task.executeAll n body).Prepared m → R (.executeAll n body) m →
    Proceeds R (executeAll n body) m (Leads (.executeAll n body) m) Completion.Live

namespace ProceedsWithin

variable {R : Task → Machine → Prop} {n : Nat} {m : Machine}

theorem zero : ProceedsWithin R 0 := by
  have hnone : ∀ {α : Type} {t : Task} {m : Machine} {good : Heap → α → Prop},
      (∀ t' m', ¬Leads t m t' m') → Proceeds R (exhausted : Exec α) m (Leads t m) good := fun hleads =>
    Proceeds.exhausted.covers hleads
  constructor
  case evaluate => exact fun _ _ => hnone fun _ _ h => by cases h
  case evaluateAll => exact fun _ _ => hnone fun _ _ h => by cases h
  case call =>
    intro _ _ _ _ _ _
    unfold LoxLang.call
    exact hnone fun _ _ h => by cases h
  case instantiate =>
    intro _ _ _ _ _
    unfold LoxLang.instantiate
    exact hnone fun _ _ h => by cases h
  case invoke =>
    intro _ _ _ _ _
    unfold LoxLang.invoke
    exact hnone fun _ _ h => by cases h
  case execute => exact fun _ _ => hnone fun _ _ h => by cases h
  case loop =>
    intro _ _ _ _ _ _
    unfold LoxLang.loop
    exact hnone fun _ _ h => by cases h
  case executeAll => exact fun _ _ => hnone fun _ _ h => by cases h

/-! ### Parts as wholes -/

theorem evaluates (h : ProceedsWithin R n) {e : Expr} (hm : m.Intact) (he : e.WellFormed)
    (hR : R (.evaluate n e) m) :
    Proceeds R (LoxLang.evaluate n e) m (Only (.evaluate n e) m) Value.Live := by
  have hprepared : (Task.evaluate n e).Prepared m := ⟨hm, he, by simp [Task.given]⟩
  exact (h.evaluate hprepared hR).whole rfl hprepared

theorem evaluatesAll (h : ProceedsWithin R n) {es : List Expr} (hm : m.Intact)
    (hes : Expr.AllWellFormed es) (hR : R (.evaluateAll n es) m) :
    Proceeds R (LoxLang.evaluateAll n es) m (Only (.evaluateAll n es) m)
      fun h vs => ∀ v ∈ vs, v.Live h := by
  have hprepared : (Task.evaluateAll n es).Prepared m := ⟨hm, hes, by simp [Task.given]⟩
  exact (h.evaluateAll hprepared hR).whole rfl hprepared

theorem calls (h : ProceedsWithin R n) {f : Value} {vs : List Value} {paren : Position} (hm : m.Intact)
    (hf : f.Live m.heap) (hvs : ∀ v ∈ vs, v.Live m.heap) (hR : R (.call n f vs paren) m) :
    Proceeds R (LoxLang.call n f vs paren) m (Only (.call n f vs paren) m) Value.Live := by
  have hprepared : (Task.call n f vs paren).Prepared m := ⟨hm, trivial, List.forall_mem_cons.mpr ⟨hf, hvs⟩⟩
  exact (h.call hprepared hR).whole rfl hprepared

theorem invokes (h : ProceedsWithin R n) {f : Closure} {vs : List Value} (hm : m.Intact)
    (hf : f.Live m.heap) (hvs : ∀ v ∈ vs, v.Live m.heap) (hR : R (.invoke n f vs) m) :
    Proceeds R (LoxLang.invoke n f vs) m (Only (.invoke n f vs) m) Value.Live := by
  have hprepared : (Task.invoke n f vs).Prepared m := ⟨hm, trivial, List.forall_mem_cons.mpr ⟨hf, hvs⟩⟩
  exact (h.invoke hprepared hR).whole rfl hprepared

theorem instantiates (h : ProceedsWithin R n) {id : ClassId} {vs : List Value} (hm : m.Intact)
    (hid : id.index < m.heap.classes.size) (hvs : ∀ v ∈ vs, v.Live m.heap)
    (hR : R (.instantiate n id vs) m) :
    Proceeds R (LoxLang.instantiate n id vs) m (Only (.instantiate n id vs) m) Value.Live := by
  have hprepared : (Task.instantiate n id vs).Prepared m :=
    ⟨hm, trivial, List.forall_mem_cons.mpr ⟨hid, hvs⟩⟩
  exact (h.instantiate hprepared hR).whole rfl hprepared

theorem executes (h : ProceedsWithin R n) {s : Stmt} (hm : m.Intact) (hs : s.WellFormed)
    (hR : R (.execute n s) m) :
    Proceeds R (LoxLang.execute n s) m (Only (.execute n s) m) Completion.Live := by
  have hprepared : (Task.execute n s).Prepared m := ⟨hm, hs, by simp [Task.given]⟩
  exact (h.execute hprepared hR).whole rfl hprepared

theorem loops (h : ProceedsWithin R n) {condition : Expr} {body : Stmt} {increment : Option Expr}
    (hm : m.Intact) (hs : (Stmt.loop condition body increment).WellFormed)
    (hR : R (.loop n condition body increment) m) :
    Proceeds R (LoxLang.loop n condition body increment) m (Only (.loop n condition body increment) m)
      Completion.Live := by
  have hprepared : (Task.loop n condition body increment).Prepared m := ⟨hm, hs, by simp [Task.given]⟩
  exact (h.loop hprepared hR).whole rfl hprepared

theorem executesAll (h : ProceedsWithin R n) {body : List Stmt} (hm : m.Intact)
    (hbody : Stmt.AllWellFormed body) (hR : R (.executeAll n body) m) :
    Proceeds R (LoxLang.executeAll n body) m (Only (.executeAll n body) m) Completion.Live := by
  have hprepared : (Task.executeAll n body).Prepared m := ⟨hm, hbody, by simp [Task.given]⟩
  exact (h.executeAll hprepared hR).whole rfl hprepared

/-! ### Expressions -/

variable (hclosed : Leads.Closed R)
include hclosed

theorem succ_evaluate (h : ProceedsWithin R n) {e : Expr} (hprepared : (Task.evaluate (n + 1) e).Prepared m)
    (hR : R (.evaluate (n + 1) e) m) :
    Proceeds R (LoxLang.evaluate (n + 1) e) m (Leads (.evaluate (n + 1) e) m) Value.Live := by
  have hm := hprepared.intact
  cases e with
  | constant value =>
    refine (Proceeds.pure (.ofConstant value)).covers ?_
    rintro _ _ ⟨⟩
  | grouping inner =>
    have hcode : inner.WellFormed := hprepared.code
    refine (h.evaluates hm hcode (hclosed hR .grouping)).covers ?_
    rintro _ _ ⟨⟩
    exact ⟨rfl, rfl⟩
  | unary op position operand =>
    have hcode : operand.WellFormed := hprepared.code
    refine ((h.evaluates hm hcode (hclosed hR .unary)).bind fun v _ _ _ _ =>
      unary_proceeds op position v).covers ?_
    rintro _ _ ⟨⟩
    exact .inl ⟨rfl, rfl⟩
  | binary left op position right =>
    have hcode : left.WellFormed ∧ right.WellFormed := hprepared.code
    refine ((h.evaluates hm hcode.1 (hclosed hR .binaryLeft)).bind fun a m₁ hleft hafter _ =>
      (h.evaluates (hm.after hafter) hcode.2 (hclosed hR (.binaryRight hleft))).bind fun b _ _ _ _ =>
        binary_proceeds op position a b).covers ?_
    rintro _ _ (_ | _)
    case binaryLeft => exact .inl ⟨rfl, rfl⟩
    case binaryRight a hleft => exact .inr ⟨a, _, hleft, .inl ⟨rfl, rfl⟩⟩
  | logical left op right =>
    have hcode : left.WellFormed ∧ right.WellFormed := hprepared.code
    refine ((h.evaluates hm hcode.1 (hclosed hR .logicalLeft)).bind fun a m₁ hleft hafter ha =>
      Proceeds.ite (fun _ => .pure ha) fun hv => h.evaluates (hm.after hafter) hcode.2
        (hclosed hR (.logicalRight hleft (Bool.eq_false_iff.mpr hv)))).covers ?_
    rintro _ _ (_ | _)
    case logicalLeft => exact .inl ⟨rfl, rfl⟩
    case logicalRight a hv hleft =>
      exact .inr ⟨a, _, hleft, .inr ⟨Bool.eq_false_iff.mp hv, rfl, rfl⟩⟩
  | read target =>
    refine (read_proceeds hm target).covers ?_
    rintro _ _ ⟨⟩
  | assign target value =>
    have hcode : Plain target.ident.name ∧ value.WellFormed := hprepared.code
    refine ((h.evaluates hm hcode.2 (hclosed hR .assign)).bind fun v m₁ hvalue _ hv =>
      (assign_proceeds fun f hf => .assign hR hvalue hf hv hcode.1).bind fun _ m₂ _ hafter _ =>
        .pure (hv.mono hafter.changes.extends)).covers ?_
    rintro _ _ ⟨⟩
    exact .inl ⟨rfl, rfl⟩
  | call callee paren arguments =>
    have hcode : callee.WellFormed ∧ Expr.AllWellFormed arguments := hprepared.code
    refine ((h.evaluates hm hcode.1 (hclosed hR .callee)).bind fun f m₁ hcallee hafter hf =>
      (h.evaluatesAll (hm.after hafter) hcode.2 (hclosed hR (.arguments hcallee))).bind
        fun vs m₂ harguments hafter' hvs =>
          h.calls ((hm.after hafter).after hafter') (hf.mono hafter'.changes.extends) hvs
            (hclosed hR (.call hcallee harguments))).covers ?_
    rintro _ _ (_ | _)
    case callee => exact .inl ⟨rfl, rfl⟩
    case arguments f hcallee => exact .inr ⟨f, _, hcallee, .inl ⟨rfl, rfl⟩⟩
    case call f m₁ vs hcallee harguments =>
      exact .inr ⟨f, m₁, hcallee, .inr ⟨vs, _, harguments, rfl, rfl⟩⟩
  | get object name =>
    have hcode : object.WellFormed := hprepared.code
    refine ((h.evaluates hm hcode (hclosed hR .getObject)).bind fun v m₁ _ hafter hv =>
      (property_proceeds (hm.after hafter) v name).whole (t := .property v name) rfl
        ⟨hm.after hafter, trivial, List.forall_mem_singleton.mpr hv⟩).covers ?_
    rintro _ _ (_ | _)
    case getObject => exact .inl ⟨rfl, rfl⟩
    case property v hobject => exact .inr ⟨v, _, hobject, rfl, rfl⟩
  | set object name value =>
    have hcode : object.WellFormed ∧ value.WellFormed := hprepared.code
    refine ((h.evaluates hm hcode.1 (hclosed hR .setObject)).bind
      (p := fun v m₁ t m' => (∃ id, v = .object id) ∧ Only (.evaluate n value) m₁ t m')
        fun v m₁ hobject hafter _ => ?_).covers ?_
    · cases v with
      | object id =>
        refine ((h.evaluates (hm.after hafter) hcode.2 (hclosed hR (.setValue hobject))).bind
          fun v m₂ _ _ hv => (Proceeds.modify ⟨rfl, .single (.setField id name.name hv)⟩).bind
            fun _ m₃ _ hafter' _ => .pure (hv.mono hafter'.changes.extends)).covers ?_
        exact fun t m' ht => .inl ht.2
      | _ =>
        refine (Proceeds.fail name.position .noFields).covers ?_
        rintro t m' ⟨⟨id, ⟨⟩⟩, -⟩
    · rintro _ _ (_ | _)
      case setObject => exact .inl ⟨rfl, rfl⟩
      case setValue id hobject => exact .inr ⟨_, _, hobject, ⟨id, rfl⟩, rfl, rfl⟩
  | this id position =>
    refine (read_proceeds hm (.this id position)).covers ?_
    rintro _ _ ⟨⟩
  | super id position method =>
    refine (superMethod_proceeds hm id position method).covers ?_
    rintro _ _ ⟨⟩

theorem succ_evaluateAll (h : ProceedsWithin R n) {es : List Expr}
    (hprepared : (Task.evaluateAll (n + 1) es).Prepared m) (hR : R (.evaluateAll (n + 1) es) m) :
    Proceeds R (LoxLang.evaluateAll (n + 1) es) m (Leads (.evaluateAll (n + 1) es) m)
      fun h vs => ∀ v ∈ vs, v.Live h := by
  have hm := hprepared.intact
  cases es with
  | nil =>
    refine (Proceeds.pure (by simp)).covers ?_
    rintro _ _ ⟨⟩
  | cons e rest =>
    have hcode : e.WellFormed ∧ Expr.AllWellFormed rest := hprepared.code
    refine ((h.evaluates hm hcode.1 (hclosed hR .head)).bind fun v m₁ hhead hafter hv =>
      (h.evaluatesAll (hm.after hafter) hcode.2 (hclosed hR (.tail hhead))).bind
        fun vs m₂ _ hafter' hvs => .pure (List.forall_mem_cons.mpr
          ⟨hv.mono hafter'.changes.extends, hvs⟩)).covers ?_
    rintro _ _ (_ | _)
    case head => exact .inl ⟨rfl, rfl⟩
    case tail v hhead => exact .inr ⟨v, _, hhead, .inl ⟨rfl, rfl⟩⟩

/-! ### Calls -/

theorem succ_call (h : ProceedsWithin R n) {f : Value} {vs : List Value} {paren : Position}
    (hprepared : (Task.call (n + 1) f vs paren).Prepared m) (hR : R (.call (n + 1) f vs paren) m) :
    Proceeds R (LoxLang.call (n + 1) f vs paren) m (Leads (.call (n + 1) f vs paren) m) Value.Live := by
  have hm := hprepared.intact
  obtain ⟨hf, hvs⟩ := List.forall_mem_cons.mp hprepared.given
  unfold LoxLang.call
  apply Proceeds.get_bind
  cases harity : arity? m.heap f with
  | none =>
    refine (Proceeds.fail paren .notCallable).covers ?_
    rintro _ _ (_ | _)
    case function => cases harity
    case cls hcls => cases harity.symm.trans hcls
  | some arity =>
    refine (Proceeds.ite (fun _ => .fail _ _) fun hlength => ?_).covers
      fun t m₁ ht => .inr ⟨?_, ht⟩
    · cases f with
      | native f => exact (callNative_proceeds hm f vs paren).covers fun _ _ ht => by cases ht
      | arrayMethod id method position =>
        exact (callArrayMethod_proceeds hm id method position hvs).covers fun _ _ ht => by cases ht
      | function f =>
        have hlength : vs.length = f.declaration.parameters.length := by
          rw [Option.some.inj harity]
          exact not_not.mp hlength
        refine (h.invokes hm hf hvs (hclosed hR (.function hlength))).covers ?_
        rintro _ _ ⟨⟩
        exact ⟨rfl, rfl⟩
      | cls id =>
        have hlength : arity? m.heap (.cls id) = some vs.length := by
          rw [harity, not_not.mp hlength]
        refine (h.instantiates hm hf hvs (hclosed hR (.cls hlength))).covers ?_
        rintro _ _ ⟨⟩
        exact ⟨rfl, rfl⟩
      | _ => exact (Proceeds.fail paren .notCallable).covers fun _ _ ht => by cases ht
    · cases ht with
      | function hlength => exact not_not.mpr (hlength.trans (Option.some.inj harity))
      | cls hcls => exact not_not.mpr (Option.some.inj (hcls.symm.trans harity))

theorem succ_instantiate (h : ProceedsWithin R n) {id : ClassId} {vs : List Value}
    (hprepared : (Task.instantiate (n + 1) id vs).Prepared m) (hR : R (.instantiate (n + 1) id vs) m) :
    Proceeds R (LoxLang.instantiate (n + 1) id vs) m (Leads (.instantiate (n + 1) id vs) m)
      Value.Live := by
  have hm := hprepared.intact
  obtain ⟨-, hvs⟩ := List.forall_mem_cons.mp hprepared.given
  have hobject : Proceeds R (updateHeap fun h => h.newObject id) m Nowhere fun _ _ => True :=
    .updateHeap (.single (.newObject id)) trivial
  unfold LoxLang.instantiate
  refine (hobject.bind (p := fun _ _ => Leads (.instantiate (n + 1) id vs) m)
    fun object m₁ hrun hafter _ => ?_).covers fun t m' ht => .inr ⟨_, _, rfl, ht⟩
  obtain ⟨rfl, rfl⟩ : (m.heap.newObject id).1 = object ∧
      { m with heap := (m.heap.newObject id).2 } = m₁ := by
    cases hrun
    exact ⟨rfl, rfl⟩
  have hm₁ := hm.after hafter
  apply Proceeds.get_bind
  cases hmethod : (m.heap.newObject id).2.method? id initializerName with
  | none =>
    refine (Proceeds.pure (by trivial)).covers ?_
    rintro _ _ (_ | _)
    case initializer f hf => cases hmethod.symm.trans hf
  | some f =>
    have hobject : (m.heap.newObject id).2.object? (m.heap.newObject id).1 = some ⟨id, []⟩ := by
      simp [Heap.newObject, Heap.object?]
    have hseeks : (m.heap.newObject id).2.Seeks (m.heap.newObject id).1 id := .own hobject
    refine ((bind_proceeds hm₁ hseeks hmethod).bind fun g m₂ hrun' hafter' hg =>
      (h.invokes (hm₁.after hafter') hg (fun v hv => (hvs v hv).mono (hafter.trans hafter').changes.extends)
        ?_).bind fun _ _ _ _ _ => .pure (by trivial)).covers ?_
    · cases hrun'
      exact hclosed hR (.initializer hmethod)
    · rintro _ _ (_ | _)
      case initializer f' hf' =>
        cases hmethod.symm.trans hf'
        exact .inr ⟨_, _, rfl, .inl ⟨rfl, rfl⟩⟩

theorem succ_invoke (h : ProceedsWithin R n) {f : Closure} {vs : List Value}
    (hprepared : (Task.invoke (n + 1) f vs).Prepared m) (hR : R (.invoke (n + 1) f vs) m) :
    Proceeds R (LoxLang.invoke (n + 1) f vs) m (Leads (.invoke (n + 1) f vs) m) Value.Live := by
  have hm := hprepared.intact
  obtain ⟨hf, hvs⟩ := List.forall_mem_cons.mp hprepared.given
  have hf : f.Live m.heap := hf
  have hnames : ∀ x, ((argumentBindings f.declaration.parameters vs).lookup x).isSome → Plain x := by
    intro x hx
    obtain ⟨p, hp, rfl⟩ := List.mem_map.mp (argumentBindings_names _ _ x hx)
    exact hf.parameters p hp
  have hchange : Heap.Change R m.heap
      (m.heap.newFrame (some f.frame) (argumentBindings f.declaration.parameters vs)).2 :=
    .newFrame hf.frame (fun b hb => hvs _ (argumentBindings_mem _ _ b hb)) (.plain hnames)
  have hbody : Stmt.AllWellFormed f.declaration.body := hf.body
  have hinside := Proceeds.inside hchange
    (h.executesAll (hm.enter hchange hnames) hbody (hclosed hR .body))
  unfold LoxLang.invoke
  rw [← bind_assoc]
  refine (hinside.bind (p := fun _ _ => Nowhere) fun completion m₁ _ hafter hcompletion => ?_).covers ?_
  · split
    · refine .get_bind (.pure ?_)
      cases hthis : m₁.heap.ownValue? f.frame thisName with
      | none => trivial
      | some v => exact (hm.after hafter).heap.ownValue? hthis
    · cases completion with
      | returned v => exact .pure (hcompletion v rfl)
      | _ => exact .pure (by trivial)
  · rintro _ _ ⟨⟩
    exact .inl ⟨rfl, rfl⟩

/-! ### Statements -/

theorem succ_execute (h : ProceedsWithin R n) {s : Stmt} (hprepared : (Task.execute (n + 1) s).Prepared m)
    (hR : R (.execute (n + 1) s) m) :
    Proceeds R (LoxLang.execute (n + 1) s) m (Leads (.execute (n + 1) s) m) Completion.Live := by
  have hm := hprepared.intact
  have hlive : ∀ (c : Completion) (h : Heap), (∀ v, c ≠ .returned v) → c.Live h := fun c h hc v hv =>
    absurd hv (hc v)
  cases s with
  | expression e =>
    have hcode : e.WellFormed := hprepared.code
    refine ((h.evaluates hm hcode (hclosed hR .expression)).bind fun _ _ _ _ _ =>
      .pure (hlive .normal _ (by simp))).covers ?_
    rintro _ _ ⟨⟩
    exact .inl ⟨rfl, rfl⟩
  | print e =>
    have hcode : e.WellFormed := hprepared.code
    refine ((h.evaluates hm hcode (hclosed hR .print)).bind fun v _ _ _ _ =>
      (Proceeds.modify ⟨rfl, .refl⟩).bind fun _ _ _ _ _ => .pure (hlive .normal _ (by simp))).covers ?_
    rintro _ _ ⟨⟩
    exact .inl ⟨rfl, rfl⟩
  | var name initializer =>
    cases initializer with
    | none =>
      refine ((define_proceeds hR rfl rfl (v := .nil) trivial hprepared.code).bind fun _ _ _ _ _ =>
        .pure (hlive .normal _ (by simp))).covers ?_
      rintro _ _ ⟨⟩
    | some e =>
      have hcode : Plain name.name ∧ e.WellFormed := hprepared.code
      refine ((h.evaluates hm hcode.2 (hclosed hR .initialValue)).bind fun v _ _ hafter hv =>
        (define_proceeds hR hafter.current rfl hv hcode.1).bind fun _ _ _ _ _ =>
          .pure (hlive .normal _ (by simp))).covers ?_
      rintro _ _ ⟨⟩
      exact .inl ⟨rfl, rfl⟩
  | block body =>
    have hnames : ∀ x, (([] : Bindings Value).lookup x).isSome → Plain x := by simp
    have hchange : Heap.Change R m.heap (m.heap.newFrame (some m.current) []).2 :=
      .newFrame hm.current (by simp) (.plain hnames)
    refine .get_bind ((Proceeds.inside hchange
      (h.executesAll (hm.enter hchange hnames) hprepared.code (hclosed hR .block))).covers ?_)
    rintro _ _ ⟨⟩
    exact ⟨rfl, rfl⟩
  | ifThen condition thenBranch =>
    have hcode : condition.WellFormed ∧ thenBranch.declared? = none ∧ thenBranch.WellFormed := hprepared.code
    refine ((h.evaluates hm hcode.1 (hclosed hR .ifCondition)).bind fun v m₁ hrun hafter _ =>
      Proceeds.ite (fun hv => h.executes (hm.after hafter) hcode.2.2 (hclosed hR (.ifThen hrun hv)))
        fun _ => .pure (hlive .normal _ (by simp))).covers ?_
    rintro _ _ (_ | _)
    case ifCondition => exact .inl ⟨rfl, rfl⟩
    case ifThen v hv hrun => exact .inr ⟨v, _, hrun, .inl ⟨hv, rfl, rfl⟩⟩
  | ifElse condition thenBranch elseBranch =>
    have hcode : condition.WellFormed ∧ (thenBranch.declared? = none ∧ thenBranch.WellFormed) ∧
      elseBranch.declared? = none ∧ elseBranch.WellFormed := hprepared.code
    refine ((h.evaluates hm hcode.1 (hclosed hR .ifElseCondition)).bind fun v m₁ hrun hafter _ =>
      Proceeds.ite
        (fun hv => h.executes (hm.after hafter) hcode.2.1.2 (hclosed hR (.ifElseThen hrun hv)))
        fun hv => h.executes (hm.after hafter) hcode.2.2.2
          (hclosed hR (.ifElseElse hrun (Bool.eq_false_iff.mpr hv)))).covers ?_
    rintro _ _ (_ | _)
    case ifElseCondition => exact .inl ⟨rfl, rfl⟩
    case ifElseThen v hv hrun => exact .inr ⟨v, _, hrun, .inl ⟨hv, rfl, rfl⟩⟩
    case ifElseElse v hv hrun => exact .inr ⟨v, _, hrun, .inr ⟨Bool.eq_false_iff.mp hv, rfl, rfl⟩⟩
  | loop condition body increment =>
    refine (h.loops hm hprepared.code (hclosed hR .loop)).covers ?_
    rintro _ _ ⟨⟩
    exact ⟨rfl, rfl⟩
  | breakLoop position =>
    refine (Proceeds.pure (hlive .broke _ (by simp))).covers ?_
    rintro _ _ ⟨⟩
  | continueLoop position =>
    refine (Proceeds.pure (hlive .continued _ (by simp))).covers ?_
    rintro _ _ ⟨⟩
  | function declaration =>
    have hcode : declaration.WellFormed := hprepared.code
    refine .get_bind (((define_proceeds hR rfl rfl (v := .function ⟨declaration, m.current, false⟩)
      ⟨hm.current, hcode⟩ hcode.name).bind fun _ _ _ _ _ => .pure (hlive .normal _ (by simp))).covers ?_)
    rintro _ _ ⟨⟩
  | returnValue position value =>
    cases value with
    | none =>
      refine (Proceeds.pure ?_).covers ?_
      · rintro _ ⟨⟩
        trivial
      · rintro _ _ ⟨⟩
    | some e =>
      have hcode : e.WellFormed := hprepared.code
      refine ((h.evaluates hm hcode (hclosed hR .returnValue)).bind fun v _ _ _ hv =>
        .pure (a := Completion.returned v) ?_).covers ?_
      · rintro _ ⟨⟩
        exact hv
      · rintro _ _ ⟨⟩
        exact .inl ⟨rfl, rfl⟩
  | classDecl name clause methods =>
    cases clause with
    | none =>
      have hcode : Plain name.name ∧ FunctionDecl.AllWellFormed methods := hprepared.code
      have hend : (Task.execute (n + 1) (.classDecl name none methods)).after m = _ :=
        after_bind_ok (f := fun _ => pure Completion.normal) (Heap.declareClass_run m name none methods)
      refine ((declareClass_proceeds hm hcode.1 hR (congrArg Machine.heap hend) (by simp) hcode.2).bind
        fun _ _ _ _ _ => .pure (hlive .normal _ (by simp))).covers ?_
      rintro _ _ ⟨⟩
    | some r =>
      have hcode : Plain name.name ∧ Plain r.ident.name ∧ FunctionDecl.AllWellFormed methods := hprepared.code
      refine ((superclassOf_proceeds hm r).bind (p := fun _ _ => Nowhere) fun c m₁ hrun _ _ => ?_).covers ?_
      · have hclause := superclassOf_ends hm r
        unfold Ends at hclause
        rw [hrun] at hclause
        obtain ⟨rfl, hc⟩ := hclause
        have hend : (Task.execute (n + 1) (.classDecl name (some r) methods)).after m₁ = _ :=
          (after_bind_ok hrun).trans (after_bind_ok (f := fun _ => pure Completion.normal)
            (Heap.declareClass_run m₁ name (some c) methods))
        have hsuperclass : ∀ up, some c = some up → up.index < m₁.heap.classes.size := by
          rintro _ ⟨⟩
          exact hc
        refine ((declareClass_proceeds hm hcode.1 hR (congrArg Machine.heap hend) hsuperclass hcode.2.2).bind
          fun _ _ _ _ _ => .pure (hlive .normal _ (by simp))).covers ?_
        exact fun _ _ ht => ht.elim
      · rintro _ _ ⟨⟩

omit hclosed in
/-- A round of a loop, and what comes next if the loop goes on. -/
theorem round (h : ProceedsWithin R n) {condition : Expr} {body : Stmt} {next : Exec Completion}
    {q : Machine → Task → Machine → Prop} (hm : m.Intact) (hcondition : condition.WellFormed)
    (hbody : body.WellFormed) (hconditionR : R (.evaluate n condition) m)
    (hbodyR : ∀ {v m₁}, (LoxLang.evaluate n condition).run m = .ok v m₁ → v.isTruthy = true →
      R (.execute n body) m₁)
    (hnext : ∀ {v m₁ c m₂}, (LoxLang.evaluate n condition).run m = .ok v m₁ → v.isTruthy = true →
      (LoxLang.execute n body).run m₁ = .ok c m₂ → c = .normal ∨ c = .continued → m₂.Intact →
        Proceeds R next m₂ (q m₂) Completion.Live) :
    Proceeds R (do
        let v ← LoxLang.evaluate n condition
        if v.isTruthy then
          match ← LoxLang.execute n body with
          | .broke => return .normal
          | .returned v => return .returned v
          | _ => next
        else return .normal) m
      (fun t m' => Only (.evaluate n condition) m t m' ∨
        ∃ v m₁, (LoxLang.evaluate n condition).run m = .ok v m₁ ∧ v.isTruthy = true ∧
          (Only (.execute n body) m₁ t m' ∨ ∃ c m₂, (LoxLang.execute n body).run m₁ = .ok c m₂ ∧
            (c = .normal ∨ c = .continued) ∧ q m₂ t m'))
      Completion.Live := by
  have hnormal : ∀ h, Completion.Live h .normal := by
    rintro _ _ ⟨⟩
  refine ((h.evaluates hm hcondition hconditionR).bind fun v m₁ hrun hafter _ =>
    Proceeds.ite (q := Nowhere) (fun hv => (h.executes (hm.after hafter) hbody (hbodyR hrun hv)).bind
      (p := fun c m₂ t m' => (c = .normal ∨ c = .continued) ∧ q m₂ t m')
        fun c m₂ hround hafter' hc => ?_) fun _ => .pure (hnormal _)).covers ?_
  · have hrest := fun hc => hnext hrun hv hround hc ((hm.after hafter).after hafter')
    cases c with
    | normal => exact (hrest (.inl rfl)).covers fun _ _ ht => ht.2
    | continued => exact (hrest (.inr rfl)).covers fun _ _ ht => ht.2
    | broke => exact (Proceeds.pure (hnormal _)).covers fun _ _ ht => by simp at ht
    | returned v => exact (Proceeds.pure hc).covers fun _ _ ht => by simp at ht
  · rintro t m' (ht | ⟨v, m₁, hrun, hv, ht⟩)
    · exact .inl ht
    · exact .inr ⟨v, m₁, hrun, .inl ⟨hv, ht⟩⟩

theorem succ_loop (h : ProceedsWithin R n) {condition : Expr} {body : Stmt} {increment : Option Expr}
    (hprepared : (Task.loop (n + 1) condition body increment).Prepared m)
    (hR : R (.loop (n + 1) condition body increment) m) :
    Proceeds R (LoxLang.loop (n + 1) condition body increment) m
      (Leads (.loop (n + 1) condition body increment) m) Completion.Live := by
  have hm := hprepared.intact
  have hcode : (Stmt.loop condition body increment).WellFormed := hprepared.code
  have hconditionR := hclosed hR .loopCondition
  have hbodyR := fun {v m₁} hrun hv => hclosed hR (@Leads.loopBody n condition body increment m v m₁ hrun hv)
  unfold LoxLang.loop
  cases increment with
  | none =>
    refine (h.round (q := fun m₂ => Only (.loop n condition body none) m₂) hm hcode.1 hcode.2.2
      hconditionR hbodyR fun hrun hv hround hc hm₂ =>
        h.loops hm₂ hcode (hclosed hR (.again hrun hv hround hc))).covers ?_
    rintro _ _ (_ | _)
    case loopCondition => exact .inl ⟨rfl, rfl⟩
    case loopBody v hv hrun => exact .inr ⟨v, _, hrun, hv, .inl ⟨rfl, rfl⟩⟩
    case again v m₁ c hv hc hrun hround => exact .inr ⟨v, m₁, hrun, hv, .inr ⟨c, _, hround, hc, rfl, rfl⟩⟩
  | some e =>
    refine (h.round hm hcode.1 hcode.2.1.2 hconditionR hbodyR fun {v m₁ c m₂} hrun hv hround hc hm₂ =>
        (h.evaluates hm₂ hcode.2.2 (hclosed hR (.increment hrun hv hround hc))).bind
          fun u m₃ hincrement hafter _ => h.loops (hm₂.after hafter) hcode
            (hclosed hR (.incremented hrun hv hround hc hincrement))).covers ?_
    rintro _ _ (_ | _)
    case loopCondition => exact .inl ⟨rfl, rfl⟩
    case loopBody v hv hrun => exact .inr ⟨v, _, hrun, hv, .inl ⟨rfl, rfl⟩⟩
    case increment v m₁ c hv hc hrun hround =>
      exact .inr ⟨v, m₁, hrun, hv, .inr ⟨c, _, hround, hc, .inl ⟨rfl, rfl⟩⟩⟩
    case incremented v m₁ c m₂ u hv hc hround hrun hincrement =>
      exact .inr ⟨v, m₁, hrun, hv, .inr ⟨c, m₂, hround, hc, .inr ⟨u, _, hincrement, rfl, rfl⟩⟩⟩

theorem succ_executeAll (h : ProceedsWithin R n) {body : List Stmt}
    (hprepared : (Task.executeAll (n + 1) body).Prepared m) (hR : R (.executeAll (n + 1) body) m) :
    Proceeds R (LoxLang.executeAll (n + 1) body) m (Leads (.executeAll (n + 1) body) m)
      Completion.Live := by
  have hm := hprepared.intact
  cases body with
  | nil =>
    refine (Proceeds.pure (a := Completion.normal) ?_).covers ?_
    · rintro _ ⟨⟩
    · rintro _ _ ⟨⟩
  | cons s rest =>
    have hcode : s.WellFormed ∧ Stmt.AllWellFormed rest := hprepared.code
    refine ((h.executes hm hcode.1 (hclosed hR .first)).bind
      (p := fun c m₁ t m' => c = .normal ∧ Only (.executeAll n rest) m₁ t m')
        fun c m₁ hfirst hafter hc => ?_).covers ?_
    · cases c with
      | normal =>
        exact (h.executesAll (hm.after hafter) hcode.2 (hclosed hR (.next hfirst))).covers
          fun _ _ ht => ht.2
      | _ =>
        refine (Proceeds.pure hc).covers ?_
        rintro _ _ ⟨⟨⟩, -⟩
    · rintro _ _ (_ | _)
      case first => exact .inl ⟨rfl, rfl⟩
      case next hfirst => exact .inr ⟨_, _, hfirst, rfl, rfl, rfl⟩

end ProceedsWithin

/-- However deep it goes, evaluation proceeds from intact states by changes. -/
theorem proceedsWithin {R : Task → Machine → Prop} (hclosed : Leads.Closed R) (n : Nat) : ProceedsWithin R n := by
  induction n with
  | zero => exact .zero
  | succ n ih =>
    exact ⟨ih.succ_evaluate hclosed, ih.succ_evaluateAll hclosed, ih.succ_call hclosed,
      ih.succ_instantiate hclosed, ih.succ_invoke hclosed, ih.succ_execute hclosed, ih.succ_loop hclosed,
      ih.succ_executeAll hclosed⟩

/-! ### Tasks -/

namespace Task

variable {R : Task → Machine → Prop} {t t' : Task} {m m' m'' : Machine}

/-- A task that is prepared leaves changes behind, and it passes its parts. -/
theorem Prepared.course (hprepared : t.Prepared m) (hclosed : Leads.Closed R) (hR : R t m) :
    m.After R (t.after m) ∧ ∀ t' m', Leads t m t' m' → t'.Passed R m' m (t.after m) := by
  have hwithin := proceedsWithin hclosed
  cases t with
  | evaluate n e => exact ⟨((hwithin n).evaluate hprepared hR).after, ((hwithin n).evaluate hprepared hR).passes⟩
  | evaluateAll n es =>
    exact ⟨((hwithin n).evaluateAll hprepared hR).after, ((hwithin n).evaluateAll hprepared hR).passes⟩
  | property v name =>
    have hproperty : Proceeds R (Exec.property v name) m Nowhere Value.Live :=
      property_proceeds hprepared.intact v name
    exact ⟨hproperty.after, fun _ _ hleads => by cases hleads⟩
  | call n f vs paren => exact ⟨((hwithin n).call hprepared hR).after, ((hwithin n).call hprepared hR).passes⟩
  | instantiate n id vs =>
    exact ⟨((hwithin n).instantiate hprepared hR).after, ((hwithin n).instantiate hprepared hR).passes⟩
  | invoke n f vs => exact ⟨((hwithin n).invoke hprepared hR).after, ((hwithin n).invoke hprepared hR).passes⟩
  | execute n s => exact ⟨((hwithin n).execute hprepared hR).after, ((hwithin n).execute hprepared hR).passes⟩
  | loop n condition body increment =>
    exact ⟨((hwithin n).loop hprepared hR).after, ((hwithin n).loop hprepared hR).passes⟩
  | executeAll n body =>
    exact ⟨((hwithin n).executeAll hprepared hR).after, ((hwithin n).executeAll hprepared hR).passes⟩

/-- What is passed on the way to a part of something that is passed. -/
theorem Passed.leads (hpassed : t.Passed R m' m m'') (hclosed : Leads.Closed R) (hR : R t m') {m₁ : Machine}
    (hleads : Leads t m' t' m₁) : t'.Passed R m₁ m m'' := by
  have hpart := (hpassed.prepared.course hclosed hR).2 t' m₁ hleads
  refine ⟨hpart.prepared, ?_, hpassed.before.trans hpart.before, hpart.behind.trans hpassed.behind⟩
  rcases hpart.scope with hsame | hnew
  · exact hsame ▸ hpassed.scope
  · exact .inr (Nat.le_trans hpassed.before.extends.frames hnew)

end Task

end LoxLang
